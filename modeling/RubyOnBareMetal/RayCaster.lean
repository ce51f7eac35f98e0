import Mathlib.Data.Rat.Floor
import RubyOnBareMetal.Foundation.GridWalk

namespace RubyOnBareMetal.RayCaster

open Foundation GridWalk

/-!
# The ray caster of `ruby/scripts/autodemo.rb`

`cast_ray` follows a ray through the cells of a map until it hits a wall.
Floats are read as rational numbers.
-/

/-- `MAP`. -/
def map : List (List Char) := [
  ['#', '#', '#', '#', '#', '#', '#', '#', '#', '#', '#', '#', '#', '#'],
  ['#', '.', '.', '.', '.', '.', '.', '.', '.', '.', '.', '.', '.', '#'],
  ['#', '.', '.', '.', '#', '#', '#', '.', '.', '.', '.', '.', '.', '#'],
  ['#', '.', '.', '.', '#', '.', '.', '.', '.', '.', '.', '.', '.', '#'],
  ['#', '.', '.', '.', '#', '.', '.', '#', '#', '#', '#', '.', '.', '#'],
  ['#', '.', '.', '.', '#', '.', '.', '#', '.', '.', '.', '.', '.', '#'],
  ['#', '.', '.', '.', '.', '.', '.', '#', '.', '.', '.', '.', '.', '#'],
  ['#', '.', '#', '#', '#', '#', '#', '#', '.', '.', '.', '.', '.', '#'],
  ['#', '.', '.', '.', '.', '.', '.', '.', '.', '.', '.', '.', '.', '#'],
  ['#', '#', '#', '#', '#', '#', '#', '#', '#', '#', '#', '#', '#', '#']
]

/-- `MAP_H` and `MAP_W`. -/
def mapH : ℤ := map.length
def mapW : ℤ := (map.headD []).length

theorem mapH_eq : mapH = 10 :=
  rfl

theorem mapW_eq : mapW = 14 :=
  rfl

/-- `MAP[my][mx]`, for a cell of the map. -/
def cell? (mx my : ℤ) : Option Char :=
  map[my.toNat]?.bind fun row => row[mx.toNat]?

/-- `my < 0 || my >= MAP_H || mx < 0 || mx >= MAP_W`. -/
abbrev Outside (mx my : ℤ) : Prop :=
  my < 0 ∨ mapH ≤ my ∨ mx < 0 ∨ mapW ≤ mx

/-- A cell of the map with a wall in it. -/
abbrev IsWall (mx my : ℤ) : Prop :=
  ¬ Outside mx my ∧ cell? mx my = some '#'

/-- A cell of the map without a wall. -/
abbrev IsOpen (mx my : ℤ) : Prop :=
  ¬ Outside mx my ∧ cell? mx my ≠ some '#'

/-- The origin and the direction of a ray. -/
structure Ray where
  ox : ℚ
  oy : ℚ
  rdx : ℚ
  rdy : ℚ
  deriving Repr, DecidableEq

/-- The variables of the loop. -/
structure March where
  mx : ℤ
  my : ℤ
  sdX : ℚ
  sdY : ℚ
  side : Nat
  deriving Repr, DecidableEq

/-- `1e-9` and `1e30`. -/
def tiny : ℚ := 1 / 1000000000
def huge : ℚ := 1000000000000000000000000000000

/-- `ddx` and `ddy`. -/
def spacing (rd : ℚ) : ℚ :=
  if |rd| < tiny then huge else |1 / rd|

/-- `step_x` and `step_y`. -/
def stepOf (rd : ℚ) : ℤ :=
  if rd < 0 then -1 else 1

/-- `sd_x` and `sd_y` before the loop. -/
def firstOf (o rd : ℚ) (m : ℤ) : ℚ :=
  if rd < 0 then
    (o - m) * spacing rd
  else
    (m + 1 - o) * spacing rd

namespace Ray

variable (ray : Ray)

/-- The variables before the loop. -/
def start : March where
  mx := ⌊ray.ox⌋
  my := ⌊ray.oy⌋
  sdX := firstOf ray.ox ray.rdx ⌊ray.ox⌋
  sdY := firstOf ray.oy ray.rdy ⌊ray.oy⌋
  side := 0

/-- The step to the next cell. -/
def advance (march : March) : March :=
  if march.sdX < march.sdY then
    { march with
      sdX := march.sdX + spacing ray.rdx
      mx := march.mx + stepOf ray.rdx
      side := 0 }
  else
    { march with
      sdY := march.sdY + spacing ray.rdy
      my := march.my + stepOf ray.rdy
      side := 1 }

/-- `d` in front of a wall. -/
def distance (march : March) : ℚ :=
  if march.side = 0 then
    (march.mx - ray.ox + (1 - stepOf ray.rdx) / 2) / ray.rdx
  else
    (march.my - ray.oy + (1 - stepOf ray.rdy) / 2) / ray.rdy

/-- The loop, with the number of steps that are left. -/
def march : Nat → March → Option (ℚ × Nat)
  | 0, _ => none
  | left + 1, before =>
      let after := ray.advance before
      if Outside after.mx after.my then
        none
      else if cell? after.mx after.my = some '#' then
        some (|ray.distance after|, after.side)
      else
        march left after

/-- The value without a hit. -/
def noHit : ℚ × Nat := (huge, 0)

/-- `cast_ray`. -/
def castRay : ℚ × Nat :=
  (ray.march 64 ray.start).getD noHit

/-- The two axes of the ray. -/
def alongX : Axis ℚ where
  origin := ray.ox
  direction := ray.rdx

def alongY : Axis ℚ where
  origin := ray.oy
  direction := ray.rdy

/-- A wall is hit at `d`, and the ray has been in open cells before. -/
structure ExactHit (d : ℚ) : Prop where
  notNegative : 0 ≤ d
  onWall :
    ∃ mx my, IsWall mx my ∧ OnBoundary ray.alongX ray.alongY mx my d
  covered : Covered ray.alongX ray.alongY IsOpen d

end Ray

/-! ## The map -/

/-- Open cells are not at the edge of the map. -/
theorem isOpen_interior
    {mx my : ℤ}
    (cellOpen : IsOpen mx my) :
    (1 ≤ mx ∧ mx ≤ 12) ∧ 1 ≤ my ∧ my ≤ 8 := by
  obtain ⟨inside, noWall⟩ := cellOpen
  have enclosed :
      ∀ row < 10, ∀ column < 14,
        cell? (Int.ofNat column) (Int.ofNat row) ≠ some '#' →
        (1 ≤ column ∧ column ≤ 12) ∧ 1 ≤ row ∧ row ≤ 8 := by
    decide +kernel
  rw [Outside, mapH_eq, mapW_eq] at inside
  obtain ⟨column, rfl⟩ := Int.eq_ofNat_of_zero_le (a := mx) (by omega)
  obtain ⟨row, rfl⟩ := Int.eq_ofNat_of_zero_le (a := my) (by omega)
  have interior := enclosed row (by omega) column (by omega) noWall
  omega

/-- A step along one axis. -/
theorem step_cases (axis : Axis ℚ) :
    axis.step = 1 ∨ axis.step = -1 := by
  rw [Axis.step]
  split
  · exact .inr rfl
  · exact .inl rfl

/-- The cells in front of a cell, up to the edge of the map. -/
def remaining (step size cell : ℤ) : ℤ :=
  if step = 1 then size - 1 - cell else cell

/-- A step leaves one cell less. -/
theorem remaining_step
    (axis : Axis ℚ)
    (size cell : ℤ) :
    remaining axis.step size (cell + axis.step) =
      remaining axis.step size cell - 1 := by
  rcases step_cases axis with forward | backward
  · rw [remaining, remaining, if_pos forward, if_pos forward, forward]
    omega
  · have notForward : axis.step ≠ 1 := by
      rw [backward]
      decide
    rw [remaining, remaining, if_neg notForward, if_neg notForward,
      backward]
    omega

namespace Ray

variable {ray : Ray}

/-! ## The loop -/

/-- Both components of the direction are large enough. -/
structure Moves (ray : Ray) : Prop where
  x : tiny ≤ |ray.rdx|
  y : tiny ≤ |ray.rdy|

/-- A component that is large enough is not zero. -/
theorem ne_zero_of_tiny
    {rd : ℚ}
    (large : tiny ≤ |rd|) :
    rd ≠ 0 := by
  rintro rfl
  rw [abs_zero] at large
  exact absurd large (by decide +kernel)

/-- The spacing of the crossings. -/
theorem spacing_eq
    {rd : ℚ}
    (large : tiny ≤ |rd|) :
    spacing rd = |1 / rd| :=
  if_neg large.not_gt

/-- The cells in front of a cell along both axes. -/
def rank (ray : Ray) (march : March) : ℤ :=
  remaining ray.alongX.step mapW march.mx +
    remaining ray.alongY.step mapH march.my

/-- The loop has come to an open cell. -/
abbrev At (ray : Ray) (march : March) (t : ℚ) : Prop :=
  Visit ray.alongX ray.alongY IsOpen march.mx march.my march.sdX march.sdY t

/-- What a step of the loop does. -/
structure Advanced (ray : Ray) (before after : March) (d : ℚ) : Prop where
  inside : ¬ Outside after.mx after.my
  nearer : ray.rank after = ray.rank before - 1
  distance : ray.distance after = d
  notNegative : 0 ≤ d
  onBoundary : OnBoundary ray.alongX ray.alongY after.mx after.my d
  covered : Covered ray.alongX ray.alongY IsOpen d
  visits : IsOpen after.mx after.my → ray.At after d

/-- A step from an open cell stays on the map, along both axes. -/
theorem not_outside_step
    {mx my : ℤ}
    (cellOpen : IsOpen mx my)
    (axis : Axis ℚ) :
    ¬ Outside (mx + axis.step) my ∧ ¬ Outside mx (my + axis.step) := by
  obtain ⟨⟨leftX, rightX⟩, leftY, rightY⟩ := isOpen_interior cellOpen
  rw [Outside, Outside, mapH_eq, mapW_eq]
  rcases step_cases axis with forward | backward
  · rw [forward]
    omega
  · rw [backward]
    omega

/-- A step to the next cell of the row. -/
theorem advanced_alongX
    (moves : ray.Moves)
    {before : March}
    {t : ℚ}
    (visit : ray.At before t)
    (first : before.sdX < before.sdY) :
    ray.Advanced before (ray.advance before) before.sdX := by
  have movesX : ray.alongX.direction ≠ 0 := ne_zero_of_tiny moves.x
  have movesY : ray.alongY.direction ≠ 0 := ne_zero_of_tiny moves.y
  have stepped :
      ray.advance before =
        { before with
          sdX := before.sdX + ray.alongX.delta
          mx := before.mx + ray.alongX.step
          side := 0 } := by
    rw [advance, if_pos first, spacing_eq moves.x]
    rfl
  rw [stepped]
  refine ⟨?_, ?_, ?_, ?_, ?_, ?_, ?_⟩
  · exact (not_outside_step visit.cellOpen ray.alongX).1
  · rw [rank, rank, remaining_step]
    ring
  · rw [distance, if_pos rfl]
    exact visit.alongX.crossing_eq movesX
  · exact visit.notNegative.trans visit.alongX.ahead
  · exact visit.boundaryX movesX movesY first.le
  · exact visit.covered_to movesX movesY le_rfl first.le
  · exact visit.stepX movesX movesY first.le

/-- A step to the next cell of the column. -/
theorem advanced_alongY
    (moves : ray.Moves)
    {before : March}
    {t : ℚ}
    (visit : ray.At before t)
    (first : ¬ before.sdX < before.sdY) :
    ray.Advanced before (ray.advance before) before.sdY := by
  have movesX : ray.alongX.direction ≠ 0 := ne_zero_of_tiny moves.x
  have movesY : ray.alongY.direction ≠ 0 := ne_zero_of_tiny moves.y
  have firstY : before.sdY ≤ before.sdX := not_lt.mp first
  have stepped :
      ray.advance before =
        { before with
          sdY := before.sdY + ray.alongY.delta
          my := before.my + ray.alongY.step
          side := 1 } := by
    rw [advance, if_neg first, spacing_eq moves.y]
    rfl
  rw [stepped]
  refine ⟨?_, ?_, ?_, ?_, ?_, ?_, ?_⟩
  · exact (not_outside_step visit.cellOpen ray.alongY).2
  · rw [rank, rank, remaining_step]
    ring
  · rw [distance, if_neg Nat.one_ne_zero]
    exact visit.alongY.crossing_eq movesY
  · exact visit.notNegative.trans visit.alongY.ahead
  · exact visit.boundaryY movesX movesY firstY
  · exact visit.covered_to movesX movesY firstY le_rfl
  · exact visit.stepY movesX movesY firstY

/-- A step goes through the line that is crossed first. -/
theorem advance_spec
    (moves : ray.Moves)
    {before : March}
    {t : ℚ}
    (visit : ray.At before t) :
    ∃ d, ray.Advanced before (ray.advance before) d := by
  by_cases first : before.sdX < before.sdY
  · exact ⟨before.sdX, advanced_alongX moves visit first⟩
  · exact ⟨before.sdY, advanced_alongY moves visit first⟩

/-- In an open cell the edge of the map is still in front of the ray. -/
theorem rank_pos
    {march : March}
    (cellOpen : IsOpen march.mx march.my) :
    0 < ray.rank march := by
  obtain ⟨⟨leftX, rightX⟩, leftY, rightY⟩ := isOpen_interior cellOpen
  rw [rank, remaining, remaining, mapH_eq, mapW_eq]
  split
  · split
    · omega
    · omega
  · split
    · omega
    · omega

/-- From an open cell the loop comes to a wall before it comes to the edge. -/
theorem march_hits
    (moves : ray.Moves)
    {left : Nat}
    {before : March}
    {t : ℚ}
    (visit : ray.At before t)
    (enough : ray.rank before ≤ left) :
    ∃ d side, ray.march left before = some (d, side) ∧ ray.ExactHit d := by
  induction left generalizing before t with
  | zero =>
      have inFront : 0 < ray.rank before := rank_pos visit.cellOpen
      omega
  | succ left inductionHypothesis =>
      obtain ⟨d, advanced⟩ := advance_spec moves visit
      rw [march, if_neg advanced.inside]
      by_cases wall :
          cell? (ray.advance before).mx (ray.advance before).my = some '#'
      · rw [if_pos wall, advanced.distance,
          abs_of_nonneg advanced.notNegative]
        exact ⟨d, _, rfl, advanced.notNegative,
          ⟨_, _, ⟨advanced.inside, wall⟩, advanced.onBoundary⟩,
          advanced.covered⟩
      · rw [if_neg wall]
        refine inductionHypothesis
          (advanced.visits ⟨advanced.inside, wall⟩) ?_
        rw [advanced.nearer]
        omega

/-- Before the loop the crossings are the first ones. -/
theorem firstOf_eq
    (axis : Axis ℚ)
    (large : tiny ≤ |axis.direction|)
    (m : ℤ) :
    firstOf axis.origin axis.direction m = axis.firstCrossing m := by
  rw [firstOf, spacing_eq large, Axis.firstCrossing, Axis.delta]

/-- A coordinate is in the cell of its floor. -/
theorem within_floor (coordinate : ℚ) :
    Axis.Within ⌊coordinate⌋ coordinate :=
  ⟨Int.floor_le coordinate, (Int.lt_floor_add_one coordinate).le⟩

/-- The loop starts in the cell of the origin. -/
theorem at_start
    (moves : ray.Moves)
    (startOpen : IsOpen ⌊ray.ox⌋ ⌊ray.oy⌋) :
    ray.At ray.start 0 := by
  have movesX : ray.alongX.direction ≠ 0 := ne_zero_of_tiny moves.x
  have movesY : ray.alongY.direction ≠ 0 := ne_zero_of_tiny moves.y
  have insideX : Axis.Within ⌊ray.ox⌋ ray.alongX.origin :=
    within_floor ray.ox
  have insideY : Axis.Within ⌊ray.oy⌋ ray.alongY.origin :=
    within_floor ray.oy
  have visit := visit_start movesX movesY insideX insideY startOpen
  have firstX := firstOf_eq ray.alongX moves.x ⌊ray.ox⌋
  have firstY := firstOf_eq ray.alongY moves.y ⌊ray.oy⌋
  rw [← firstX, ← firstY] at visit
  exact visit

/-- A wall on the map is not far away. -/
theorem hit_lt_huge
    (moves : ray.Moves)
    (startOpen : IsOpen ⌊ray.ox⌋ ⌊ray.oy⌋)
    {d : ℚ}
    (hit : ray.ExactHit d) :
    d < huge := by
  obtain ⟨mx, my, ⟨inside, _⟩, ⟨⟨least, most⟩, _⟩, _⟩ := hit.onWall
  obtain ⟨⟨floorLeast, floorMost⟩, _⟩ := isOpen_interior startOpen
  have position : ray.alongX.position d = ray.ox + d * ray.rdx :=
    rfl
  rw [position] at least most
  have cellLeast : ((0 : ℤ) : ℚ) ≤ mx :=
    Int.cast_le.mpr (by omega)
  have cellMost : (mx : ℚ) ≤ ((13 : ℤ) : ℚ) :=
    Int.cast_le.mpr (by
      rw [Outside, mapW_eq] at inside
      omega)
  have originLeast : ((1 : ℤ) : ℚ) ≤ ray.ox :=
    (Int.cast_le.mpr floorLeast).trans (Int.floor_le ray.ox)
  have originMost : ray.ox ≤ ((12 : ℤ) : ℚ) + 1 :=
    (Int.lt_floor_add_one ray.ox).le.trans
      (add_le_add_left (Int.cast_le.mpr floorMost) 1)
  push_cast at cellLeast cellMost originLeast originMost
  have short : |d * ray.rdx| ≤ 14 := by
    rw [abs_le]
    constructor
    · linarith
    · linarith
  rw [abs_mul, abs_of_nonneg hit.notNegative] at short
  have slow : d * tiny ≤ d * |ray.rdx| :=
    mul_le_mul_of_nonneg_left moves.x hit.notNegative
  rw [tiny] at slow
  rw [huge]
  linarith

/-- The ray caster hits a wall exactly where the ray leaves the open cells. -/
theorem cast_ray_exact
    (moves : ray.Moves)
    (startOpen : IsOpen ⌊ray.ox⌋ ⌊ray.oy⌋) :
    ∃ d side,
      ray.march 64 ray.start = some (d, side) ∧
        ray.castRay = (d, side) ∧
        ray.castRay ≠ noHit ∧
        ray.ExactHit d := by
  have near : ray.rank ray.start ≤ (64 : Nat) := by
    obtain ⟨⟨leftX, rightX⟩, leftY, rightY⟩ := isOpen_interior startOpen
    rw [rank, remaining, remaining, start, mapH_eq, mapW_eq]
    dsimp only
    split
    · split
      · omega
      · omega
    · split
      · omega
      · omega
  obtain ⟨d, side, marched, hit⟩ :=
    march_hits moves (at_start moves startOpen) near
  have cast : ray.castRay = (d, side) := by
    rw [castRay, marched, Option.getD_some]
  refine ⟨d, side, marched, cast, ?_, hit⟩
  rw [cast]
  intro missed
  exact (hit_lt_huge moves startOpen hit).ne (Prod.mk.inj missed).1

/-- The first ray of the demo's corridor, through the corner of four cells. -/
theorem cast_ray_exact_diagonal :
    ∃ d side,
      (Ray.mk (5 / 2) (5 / 2) 1 1).march 64
          (Ray.mk (5 / 2) (5 / 2) 1 1).start = some (d, side) ∧
        (Ray.mk (5 / 2) (5 / 2) 1 1).castRay = (d, side) ∧
        (Ray.mk (5 / 2) (5 / 2) 1 1).castRay ≠ noHit ∧
        (Ray.mk (5 / 2) (5 / 2) 1 1).ExactHit d :=
  cast_ray_exact ⟨by decide +kernel, by decide +kernel⟩
    ⟨by decide +kernel, by decide +kernel⟩

end Ray

end RubyOnBareMetal.RayCaster
