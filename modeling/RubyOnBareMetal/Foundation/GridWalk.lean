import Mathlib.Algebra.Order.Field.Basic
import Mathlib.Tactic.Linarith
import Mathlib.Tactic.Ring

namespace Foundation.GridWalk

/-!
# Walks along a ray through a grid

A ray through a grid of unit cells leaves each cell through a grid line, and
the parameters at which it crosses the lines of one axis are evenly spaced.
One axis is described at a time: the cell, the parameter of the next crossing
and a parameter up to which the ray has been followed.
-/

/-- One coordinate of a ray. -/
structure Axis (K : Type) where
  origin : K
  direction : K

namespace Axis

variable {K : Type} [Field K] [LinearOrder K] [IsStrictOrderedRing K]
variable (axis : Axis K)

/-- The coordinate at a parameter. -/
def position (t : K) : K :=
  axis.origin + t * axis.direction

/-- The step from cell to cell. -/
def step : ℤ :=
  if axis.direction < 0 then -1 else 1

/-- The distance of two crossings. -/
def delta : K :=
  |1 / axis.direction|

/-- The grid line through which the ray leaves a cell. -/
def exitLine (cell : ℤ) : K :=
  if axis.direction < 0 then cell else cell + 1

/-- The parameter at which the ray leaves its first cell. -/
def firstCrossing (cell : ℤ) : K :=
  if axis.direction < 0 then
    (axis.origin - cell) * axis.delta
  else
    (cell + 1 - axis.origin) * axis.delta

/-- The ray is in a cell at a parameter, and leaves it at the crossing. -/
structure Running (cell : ℤ) (crossing t : K) : Prop where
  crosses : axis.position crossing = axis.exitLine cell
  ahead : t ≤ crossing
  entered : crossing - axis.delta ≤ t

/-- A coordinate is in a closed cell. -/
def Within (cell : ℤ) (coordinate : K) : Prop :=
  cell ≤ coordinate ∧ coordinate ≤ cell + 1

variable {axis}

omit [IsStrictOrderedRing K] in
/-- A negative direction leads back. -/
theorem step_of_neg (negative : axis.direction < 0) : axis.step = -1 :=
  if_pos negative

omit [IsStrictOrderedRing K] in
/-- A positive one leads forward. -/
theorem step_of_pos (positive : 0 < axis.direction) : axis.step = 1 :=
  if_neg positive.not_gt

/-- The crossings are apart. -/
theorem delta_pos (moves : axis.direction ≠ 0) : 0 < axis.delta :=
  abs_pos.mpr (one_div_ne_zero moves)

/-- From crossing to crossing the ray takes one step. -/
theorem delta_mul_direction (moves : axis.direction ≠ 0) :
    axis.delta * axis.direction = axis.step := by
  rcases lt_or_gt_of_ne moves with negative | positive
  · have inverse : 1 / axis.direction < 0 :=
      one_div_neg.mpr negative
    rw [delta, abs_of_neg inverse, neg_mul, one_div_mul_cancel moves,
      step_of_neg negative]
    push_cast
    rfl
  · have inverse : 0 < 1 / axis.direction :=
      one_div_pos.mpr positive
    rw [delta, abs_of_pos inverse, one_div_mul_cancel moves,
      step_of_pos positive]
    push_cast
    rfl

/-- The exit line lies half a step away from the middle of the cell. -/
theorem exitLine_eq (cell : ℤ) :
    axis.exitLine cell = cell + (1 + (axis.step : K)) / 2 := by
  rw [exitLine, step]
  split
  · push_cast
    ring
  · push_cast
    ring

/-- The way out of the first cell is a part of a step. -/
theorem exists_first_part
    (moves : axis.direction ≠ 0)
    {cell : ℤ}
    (inside : Within cell axis.origin) :
    ∃ part : K,
      axis.firstCrossing cell = part * axis.delta ∧
        0 ≤ part ∧ part ≤ 1 ∧
          part * axis.step = axis.exitLine cell - axis.origin := by
  obtain ⟨least, most⟩ := inside
  rcases lt_or_gt_of_ne moves with negative | positive
  · refine ⟨axis.origin - cell, if_pos negative, ?_, ?_, ?_⟩
    · linarith
    · linarith
    · rw [step_of_neg negative, exitLine, if_pos negative]
      push_cast
      ring
  · refine ⟨cell + 1 - axis.origin, if_neg positive.not_gt, ?_, ?_, ?_⟩
    · linarith
    · linarith
    · rw [step_of_pos positive, exitLine, if_neg positive.not_gt]
      push_cast
      ring

/-- The first crossing is where the ray leaves the cell it starts in. -/
theorem running_start
    (moves : axis.direction ≠ 0)
    {cell : ℤ}
    (inside : Within cell axis.origin) :
    axis.Running cell (axis.firstCrossing cell) 0 := by
  obtain ⟨part, first, notNegative, atMostOne, whole⟩ :=
    exists_first_part moves inside
  have apart := delta_pos moves
  rw [first]
  constructor
  · rw [position, mul_assoc, delta_mul_direction moves, whole]
    ring
  · exact mul_nonneg notNegative apart.le
  · have short : part * axis.delta ≤ 1 * axis.delta :=
      mul_le_mul_of_nonneg_right atMostOne apart.le
    linarith

omit [IsStrictOrderedRing K] in
/-- The ray stays in the cell up to the crossing. -/
theorem Running.wait
    {cell : ℤ}
    {crossing t later : K}
    (running : axis.Running cell crossing t)
    (notEarlier : t ≤ later)
    (notBehind : later ≤ crossing) :
    axis.Running cell crossing later where
  crosses := running.crosses
  ahead := notBehind
  entered := running.entered.trans notEarlier

/-- At the crossing the ray enters the next cell. -/
theorem Running.advance
    (moves : axis.direction ≠ 0)
    {cell : ℤ}
    {crossing t : K}
    (running : axis.Running cell crossing t) :
    axis.Running (cell + axis.step) (crossing + axis.delta) crossing := by
  have crosses := running.crosses
  have apart := delta_pos moves
  rw [position, exitLine_eq] at crosses
  constructor
  · rw [position, exitLine_eq, add_mul, delta_mul_direction moves]
    push_cast
    linarith
  · linarith
  · linarith

/-- From its entry to the crossing the ray is in the closed cell. -/
theorem Running.within
    (moves : axis.direction ≠ 0)
    {cell : ℤ}
    {crossing t : K}
    (running : axis.Running cell crossing t) :
    Within cell (axis.position t) := by
  obtain ⟨crosses, ahead, entered⟩ := running
  have moved := delta_mul_direction moves
  rw [position, exitLine_eq] at crosses
  rw [Within, position]
  rcases lt_or_gt_of_ne moves with negative | positive
  · have left : crossing * axis.direction ≤ t * axis.direction :=
      mul_le_mul_of_nonpos_right ahead negative.le
    have right :
        t * axis.direction ≤
          (crossing - axis.delta) * axis.direction :=
      mul_le_mul_of_nonpos_right entered negative.le
    rw [sub_mul, moved] at right
    rw [step_of_neg negative] at crosses right
    push_cast at crosses right
    constructor
    · linarith
    · linarith
  · have left : t * axis.direction ≤ crossing * axis.direction :=
      mul_le_mul_of_nonneg_right ahead positive.le
    have right :
        (crossing - axis.delta) * axis.direction ≤ t * axis.direction :=
      mul_le_mul_of_nonneg_right entered positive.le
    rw [sub_mul, moved] at right
    rw [step_of_pos positive] at crosses right
    push_cast at crosses right
    constructor
    · linarith
    · linarith

/-- The crossing is found from the cell behind it. -/
theorem Running.crossing_eq
    (moves : axis.direction ≠ 0)
    {cell : ℤ}
    {crossing t : K}
    (running : axis.Running cell crossing t) :
    (((cell + axis.step : ℤ) : K) - axis.origin +
          (1 - (axis.step : K)) / 2) / axis.direction =
      crossing := by
  have crosses := running.crosses
  rw [position, exitLine_eq] at crosses
  rw [div_eq_iff moves]
  push_cast
  linarith

/-- A coordinate is on one of the two lines of a cell. -/
def OnLine (cell : ℤ) (coordinate : K) : Prop :=
  coordinate = cell ∨ coordinate = cell + 1

/-- At the crossing the ray is on a line of the cell behind it. -/
theorem Running.on_line
    (moves : axis.direction ≠ 0)
    {cell : ℤ}
    {crossing t : K}
    (running : axis.Running cell crossing t) :
    OnLine (cell + axis.step) (axis.position crossing) := by
  rw [OnLine, running.crosses, exitLine_eq]
  rcases lt_or_gt_of_ne moves with negative | positive
  · right
    rw [step_of_neg negative]
    push_cast
    ring
  · left
    rw [step_of_pos positive]
    push_cast
    ring

end Axis

/-! ## Two axes -/

section

open Axis

variable {K : Type} [Field K] [LinearOrder K] [IsStrictOrderedRing K]
variable {x y : Axis K} {isOpen : ℤ → ℤ → Prop}

/-- A point of the ray is in a closed cell. -/
def InCell (x y : Axis K) (cellX cellY : ℤ) (t : K) : Prop :=
  Within cellX (x.position t) ∧ Within cellY (y.position t)

/-- A point of the ray is on the boundary of a cell. -/
def OnBoundary (x y : Axis K) (cellX cellY : ℤ) (t : K) : Prop :=
  InCell x y cellX cellY t ∧
    (OnLine cellX (x.position t) ∨ OnLine cellY (y.position t))

/-- Up to a parameter the ray is in closed open cells. -/
def Covered
    (x y : Axis K)
    (isOpen : ℤ → ℤ → Prop)
    (last : K) :
    Prop :=
  ∀ t,
    0 ≤ t →
    t < last →
    ∃ cellX cellY, isOpen cellX cellY ∧ InCell x y cellX cellY t

/-- The ray has come to an open cell, through open cells only. -/
structure Visit
    (x y : Axis K)
    (isOpen : ℤ → ℤ → Prop)
    (cellX cellY : ℤ)
    (crossingX crossingY t : K) :
    Prop where
  alongX : x.Running cellX crossingX t
  alongY : y.Running cellY crossingY t
  notNegative : 0 ≤ t
  cellOpen : isOpen cellX cellY
  covered : Covered x y isOpen t

/-- The walk starts in the cell of the origin. -/
theorem visit_start
    (movesX : x.direction ≠ 0)
    (movesY : y.direction ≠ 0)
    {cellX cellY : ℤ}
    (insideX : Within cellX x.origin)
    (insideY : Within cellY y.origin)
    (cellOpen : isOpen cellX cellY) :
    Visit x y isOpen cellX cellY
      (x.firstCrossing cellX) (y.firstCrossing cellY) 0 where
  alongX := running_start movesX insideX
  alongY := running_start movesY insideY
  notNegative := le_rfl
  cellOpen := cellOpen
  covered _ notNegative before := absurd notNegative before.not_ge

/-- Up to the next crossing the ray is in closed open cells. -/
theorem Visit.covered_to
    (movesX : x.direction ≠ 0)
    (movesY : y.direction ≠ 0)
    {cellX cellY : ℤ}
    {crossingX crossingY t last : K}
    (visit : Visit x y isOpen cellX cellY crossingX crossingY t)
    (lastX : last ≤ crossingX)
    (lastY : last ≤ crossingY) :
    Covered x y isOpen last := by
  intro s notNegative before
  rcases lt_or_ge s t with early | late
  · exact visit.covered s notNegative early
  · refine ⟨cellX, cellY, visit.cellOpen, ?_, ?_⟩
    · exact (visit.alongX.wait late
        (before.le.trans lastX)).within movesX
    · exact (visit.alongY.wait late
        (before.le.trans lastY)).within movesY

/-- The ray crosses a line of the first axis into an open cell. -/
theorem Visit.stepX
    (movesX : x.direction ≠ 0)
    (movesY : y.direction ≠ 0)
    {cellX cellY : ℤ}
    {crossingX crossingY t : K}
    (visit : Visit x y isOpen cellX cellY crossingX crossingY t)
    (first : crossingX ≤ crossingY)
    (nextOpen : isOpen (cellX + x.step) cellY) :
    Visit x y isOpen (cellX + x.step) cellY
      (crossingX + x.delta) crossingY crossingX where
  alongX := visit.alongX.advance movesX
  alongY := visit.alongY.wait visit.alongX.ahead first
  notNegative := visit.notNegative.trans visit.alongX.ahead
  cellOpen := nextOpen
  covered := visit.covered_to movesX movesY le_rfl first

/-- Where it crosses the line it is on the boundary of the cell behind. -/
theorem Visit.boundaryX
    (movesX : x.direction ≠ 0)
    (movesY : y.direction ≠ 0)
    {cellX cellY : ℤ}
    {crossingX crossingY t : K}
    (visit : Visit x y isOpen cellX cellY crossingX crossingY t)
    (first : crossingX ≤ crossingY) :
    OnBoundary x y (cellX + x.step) cellY crossingX := by
  refine ⟨⟨?_, ?_⟩, .inl (visit.alongX.on_line movesX)⟩
  · exact (visit.alongX.advance movesX).within movesX
  · exact (visit.alongY.wait visit.alongX.ahead first).within movesY

omit [IsStrictOrderedRing K] in
/-- The two axes of a walk can be exchanged. -/
theorem Visit.swap
    {cellX cellY : ℤ}
    {crossingX crossingY t : K}
    (visit : Visit x y isOpen cellX cellY crossingX crossingY t) :
    Visit y x (fun cellY cellX => isOpen cellX cellY)
      cellY cellX crossingY crossingX t where
  alongX := visit.alongY
  alongY := visit.alongX
  notNegative := visit.notNegative
  cellOpen := visit.cellOpen
  covered s notNegative before := by
    obtain ⟨cellX, cellY, cellOpen, inX, inY⟩ :=
      visit.covered s notNegative before
    exact ⟨cellY, cellX, cellOpen, inY, inX⟩

/-- The ray crosses a line of the second axis into an open cell. -/
theorem Visit.stepY
    (movesX : x.direction ≠ 0)
    (movesY : y.direction ≠ 0)
    {cellX cellY : ℤ}
    {crossingX crossingY t : K}
    (visit : Visit x y isOpen cellX cellY crossingX crossingY t)
    (first : crossingY ≤ crossingX)
    (nextOpen : isOpen cellX (cellY + y.step)) :
    Visit x y isOpen cellX (cellY + y.step)
      crossingX (crossingY + y.delta) crossingY :=
  (visit.swap.stepX movesY movesX first nextOpen).swap

/-- There it is on the boundary of the cell behind. -/
theorem Visit.boundaryY
    (movesX : x.direction ≠ 0)
    (movesY : y.direction ≠ 0)
    {cellX cellY : ℤ}
    {crossingX crossingY t : K}
    (visit : Visit x y isOpen cellX cellY crossingX crossingY t)
    (first : crossingY ≤ crossingX) :
    OnBoundary x y cellX (cellY + y.step) crossingY := by
  obtain ⟨⟨inY, inX⟩, lines⟩ := visit.swap.boundaryX movesY movesX first
  exact ⟨⟨inX, inY⟩, lines.symm⟩

end

end Foundation.GridWalk
