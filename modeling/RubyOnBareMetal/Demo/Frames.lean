import RubyOnBareMetal.Demo.Wanderer
import RubyOnBareMetal.Foundation.LineTerminal

namespace RubyOnBareMetal.Demo

open Foundation RayCaster

/-!
# The frames of `ruby/scripts/autodemo.rb`

`render_frame` casts a ray for each column, draws the wall that it hits and
writes the whole frame over the one before.
-/

/-- The nearest integer, and the even one of two that are. -/
def roundEven (x : ℚ) : ℤ :=
  if x - ⌊x⌋ < 1 / 2 then
    ⌊x⌋
  else if 1 / 2 < x - ⌊x⌋ then
    ⌊x⌋ + 1
  else if ⌊x⌋ % 2 = 0 then
    ⌊x⌋
  else
    ⌊x⌋ + 1

/-- `'%.1f' % x` and `'%.2f' % x`, by the number of places. -/
def fixed (places : Nat) (x : ℚ) : List UInt8 :=
  let scaled := (roundEven (|x| * 10 ^ places)).toNat
  let fraction := decimalDigits (scaled % 10 ^ places)
  (if x < 0 then [0x2D] else []) ++ decimalDigits (scaled / 10 ^ places) ++
    [0x2E] ++ List.replicate (places - fraction.length) 0x30 ++ fraction

example : fixed 2 (-41 / 200) = [0x2D, 0x30, 0x2E, 0x32, 0x30] := by
  decide +kernel

/-- `VIEW_W` and `VIEW_H`. -/
def viewW : Nat := 78
def viewH : Nat := 22

/-- `Float#to_i`. -/
def toI (x : ℚ) : ℤ :=
  if x < 0 then ⌈x⌉ else ⌊x⌋

/-- `shade_char`. -/
def shadeChar (d : ℚ) (side : Nat) : Char :=
  if d < 3 / 2 then
    if side = 0 then '#' else '%'
  else if d < 3 then
    if side = 0 then '=' else '+'
  else if d < 5 then
    if side = 0 then '-' else '~'
  else
    if side = 0 then ':' else '.'

/-- `lh`. -/
def lineHeight (d : ℚ) : ℚ :=
  if 1 / 10 < d then viewH / d else viewH

/-- `top` and `bot`. -/
def top (d : ℚ) : ℤ :=
  toI (viewH / 2 - lineHeight d / 2)

def bot (d : ℚ) : ℤ :=
  toI (viewH / 2 + lineHeight d / 2)

/-- The character at a row of a column. -/
def cellOf (d : ℚ) (side : Nat) (r : Nat) : UInt8 :=
  if (r : ℤ) < top d then
    0x20
  else if bot d ≤ r then
    0x20
  else
    asciiByte (shadeChar d side)

/-- A text as bytes. -/
def textOf (text : String) : List UInt8 :=
  text.toList.map asciiByte

namespace Wanderer

variable (trig : Trigonometry)
variable (wanderer : Wanderer)

/-- The ray of a column. -/
def ray (c : Nat) : Ray :=
  let halfFovTan := trig.tan (60 * trig.pi / 180 / 2)
  let dx := trig.cos wanderer.pa
  let dy := trig.sin wanderer.pa
  let planeX := -dy * halfFovTan
  let planeY := dx * halfFovTan
  let cam := 2 * (c : ℚ) / viewW - 1
  { ox := wanderer.px
    oy := wanderer.py
    rdx := dx + planeX * cam
    rdy := dy + planeY * cam }

/-- `dists[c]` and `sides[c]`. -/
def cast (c : Nat) : ℚ × Nat :=
  (wanderer.ray trig c).castRay

/-- The character at a row and a column of the view. -/
def pixel (r c : Nat) : UInt8 :=
  cellOf (wanderer.cast trig c).1 (wanderer.cast trig c).2 r

/-- A row of the view. -/
def viewRow (r : Nat) : List UInt8 :=
  (List.range viewW).map (wanderer.pixel trig r)

/-- `hud`. -/
def hud (frame : Nat) : List UInt8 :=
  textOf "RubyOS dungeon demo  frame=" ++ decimalDigits frame ++
    textOf "  pos=(" ++ fixed 1 wanderer.px ++ textOf "," ++
    fixed 1 wanderer.py ++ textOf ")  heading=" ++
    fixed 2 wanderer.pa

/-- `hud.ljust(VIEW_W)[0, VIEW_W]`. -/
def hudRow (frame : Nat) : List UInt8 :=
  let hud := wanderer.hud frame
  (hud ++ List.replicate (viewW - hud.length) 0x20).take viewW

/-- `render_frame`. -/
def renderFrame (frame : Nat) : List UInt8 :=
  [0x1B, 0x5B, 0x48] ++
    (List.range viewH).flatMap (fun r => wanderer.viewRow trig r ++ [0x0A]) ++
    wanderer.hudRow frame ++ [0x0A]

/-- The rows of a frame. -/
def rows (frame : Nat) : List (List UInt8) :=
  (List.range viewH).map (wanderer.viewRow trig) ++
    [wanderer.hudRow frame]

end Wanderer

/-! ## Columns -/

/-- `Float#to_i` is monotone. -/
theorem toI_mono {x y : ℚ} (atMost : x ≤ y) : toI x ≤ toI y := by
  rw [toI, toI]
  split
  · split
    · exact Int.ceil_mono atMost
    · next negative notNegative =>
        have ceil : ⌈x⌉ ≤ 0 := Int.ceil_le.mpr (by
          rw [Int.cast_zero]
          exact negative.le)
        exact ceil.trans (Int.floor_nonneg.mpr (le_of_not_gt notNegative))
  · split
    · next notNegative negative =>
        exact absurd (atMost.trans_lt negative) notNegative
    · exact Int.floor_mono atMost

/-- A nearer wall is not lower. -/
theorem lineHeight_anti
    {near far : ℚ}
    (beyond : 1 / 10 < near)
    (nearer : near ≤ far) :
    lineHeight far ≤ lineHeight near := by
  have positive : (0 : ℚ) < near := lt_trans (by norm_num) beyond
  rw [lineHeight, lineHeight, if_pos beyond, if_pos (beyond.trans_le nearer)]
  exact div_le_div_of_nonneg_left (Nat.cast_nonneg _) positive nearer

/-- The rows of a column that show a wall. -/
abbrev InWall (d : ℚ) (r : Nat) : Prop :=
  top d ≤ r ∧ (r : ℤ) < bot d

/-- A very near wall fills the column. -/
theorem inWall_of_near
    {d : ℚ}
    (close : ¬1 / 10 < d)
    {r : Nat}
    (inside : r < viewH) :
    InWall d r := by
  have topZero : top d = 0 := by
    rw [top, lineHeight, if_neg close]
    decide +kernel
  have botAll : bot d = viewH := by
    rw [bot, lineHeight, if_neg close]
    decide +kernel
  rw [InWall, topZero, botAll]
  exact ⟨Int.natCast_nonneg r, Int.ofNat_lt.mpr inside⟩

/-- Where a wall shows, a nearer one does. -/
theorem inWall_of_nearer
    {near far : ℚ}
    (nearer : near ≤ far)
    {r : Nat}
    (inside : r < viewH)
    (shows : InWall far r) :
    InWall near r := by
  by_cases beyond : 1 / 10 < near
  · have taller := lineHeight_anti beyond nearer
    obtain ⟨below, above⟩ := shows
    refine ⟨le_trans (toI_mono ?_) below, lt_of_lt_of_le above
      (toI_mono ?_)⟩
    · linarith
    · linarith
  · exact inWall_of_near beyond inside

/-- The shades are characters other than a space. -/
theorem shadeChar_character (d : ℚ) (side : Nat) :
    Terminal.IsCharacter (asciiByte (shadeChar d side)) ∧
      asciiByte (shadeChar d side) ≠ 0x20 := by
  unfold shadeChar
  split_ifs <;> decide +kernel

/-- A cell of a column shows the wall or nothing. -/
theorem cellOf_eq (d : ℚ) (side : Nat) (r : Nat) :
    cellOf d side r =
      if InWall d r then
        asciiByte (shadeChar d side)
      else
        0x20 := by
  unfold cellOf
  by_cases above : (r : ℤ) < top d
  · rw [if_pos above, if_neg fun both => absurd above (not_lt.mpr both.1)]
  · rw [if_neg above]
    by_cases below : bot d ≤ r
    · rw [if_pos below, if_neg fun both => absurd below (not_le.mpr both.2)]
    · rw [if_neg below, if_pos ⟨not_lt.mp above, not_le.mp below⟩]

/-! ## Rays -/

/-- Every ray from an open cell comes to a wall, whatever its direction. -/
theorem march_some
    (ray : Ray)
    {left : Nat}
    {before : March}
    (cellOpen : IsOpen before.mx before.my)
    (enough : ray.rank before ≤ left) :
    ∃ d side, ray.march left before = some (d, side) := by
  induction left generalizing before with
  | zero =>
      have inFront : 0 < ray.rank before := Ray.rank_pos cellOpen
      omega
  | succ left inductionHypothesis =>
      have advanced :
          ¬Outside (ray.advance before).mx (ray.advance before).my ∧
            ray.rank (ray.advance before) = ray.rank before - 1 := by
        by_cases first : before.sdX < before.sdY
        · rw [Ray.advance, if_pos first]
          refine ⟨(Ray.not_outside_step cellOpen ray.alongX).1, ?_⟩
          have nearer := remaining_step ray.alongX mapW before.mx
          change
            remaining ray.alongX.step mapW (before.mx + ray.alongX.step) +
                remaining ray.alongY.step mapH before.my = _
          rw [nearer, Ray.rank]
          omega
        · rw [Ray.advance, if_neg first]
          refine ⟨(Ray.not_outside_step cellOpen ray.alongY).2, ?_⟩
          have nearer := remaining_step ray.alongY mapH before.my
          change
            remaining ray.alongX.step mapW before.mx +
                remaining ray.alongY.step mapH
                  (before.my + ray.alongY.step) = _
          rw [nearer, Ray.rank]
          omega
      obtain ⟨inside, nearer⟩ := advanced
      rw [Ray.march, if_neg inside]
      by_cases wall :
          cell? (ray.advance before).mx (ray.advance before).my = some '#'
      · rw [if_pos wall]
        exact ⟨_, _, rfl⟩
      · rw [if_neg wall]
        exact inductionHypothesis ⟨inside, wall⟩ (by omega)

/-- Before the loop the edge of the map is not far away. -/
theorem rank_start
    (ray : Ray)
    (startOpen : IsOpen ⌊ray.ox⌋ ⌊ray.oy⌋) :
    ray.rank ray.start ≤ (64 : Nat) := by
  obtain ⟨⟨leftX, rightX⟩, leftY, rightY⟩ := isOpen_interior startOpen
  rw [Ray.rank, remaining, remaining, Ray.start, mapH_eq, mapW_eq]
  dsimp only
  split
  · split
    · omega
    · omega
  · split
    · omega
    · omega

/-- What a column is drawn from. -/
theorem cast_hits
    (ray : Ray)
    (startOpen : IsOpen ⌊ray.ox⌋ ⌊ray.oy⌋) :
    ray.march 64 ray.start = some ray.castRay ∧
      (ray.Moves → ray.ExactHit ray.castRay.1) := by
  have near := rank_start ray startOpen
  obtain ⟨d, side, marched⟩ := march_some ray startOpen near
  have cast : ray.castRay = (d, side) := by
    rw [Ray.castRay, marched, Option.getD_some]
  refine ⟨marched.trans (congrArg some cast.symm), fun moves => ?_⟩
  obtain ⟨distance, face, hit, exactly⟩ :=
    Ray.march_hits moves (Ray.at_start moves startOpen) near
  have same := Option.some.inj (marched.symm.trans hit)
  rw [cast, (Prod.mk.inj same).1]
  exact exactly

/-! ## The frame on a screen -/

namespace Wanderer

variable (trig : Trigonometry)
variable (wanderer : Wanderer)

theorem length_viewRow (r : Nat) :
    (wanderer.viewRow trig r).length = viewW := by
  rw [viewRow, List.length_map, List.length_range]

theorem length_hudRow (frame : Nat) :
    (wanderer.hudRow frame).length = viewW := by
  rw [hudRow, List.length_take, List.length_append, List.length_replicate]
  omega

/-- A cell is a character. -/
theorem cellOf_character (d : ℚ) (side : Nat) (r : Nat) :
    Terminal.IsCharacter (cellOf d side r) := by
  rw [cellOf_eq]
  split
  · exact (shadeChar_character d side).1
  · decide

/-- A digit is a character. -/
theorem digit_character
    {number : Nat}
    {c : UInt8}
    (member : c ∈ decimalDigits number) :
    Terminal.IsCharacter c := by
  obtain ⟨least, most⟩ := decimalDigits_digit member
  have least := UInt8.le_iff_toNat_le.mp least
  have most := UInt8.le_iff_toNat_le.mp most
  change 48 ≤ c.toNat at least
  change c.toNat ≤ 57 at most
  constructor
  · rw [UInt8.le_iff_toNat_le]
    change 32 ≤ c.toNat
    omega
  · rw [UInt8.le_iff_toNat_le]
    change c.toNat ≤ 126
    omega

/-- One character over and over is characters. -/
theorem replicate_characters
    {character : UInt8}
    (isCharacter : Terminal.IsCharacter character)
    (count : Nat) :
    ∀ c ∈ List.replicate count character, Terminal.IsCharacter c := by
  intro c member
  rw [List.eq_of_mem_replicate member]
  exact isCharacter

/-- A formatted number consists of characters. -/
theorem fixed_characters (places : Nat) (x : ℚ) :
    ∀ c ∈ fixed places x, Terminal.IsCharacter c := by
  intro c member
  simp only [fixed, List.mem_append] at member
  rcases member with (((sign | whole) | point) | zero) | fraction
  · split at sign
    · rw [List.mem_singleton.mp sign]
      decide
    · cases sign
  · exact digit_character whole
  · rw [List.mem_singleton.mp point]
    decide
  · exact replicate_characters (by decide) _ c zero
  · exact digit_character fraction

/-- The text under the view consists of characters. -/
theorem hudRow_characters (frame : Nat) :
    ∀ c ∈ wanderer.hudRow frame, Terminal.IsCharacter c := by
  have texts :
      ∀ text ∈ ["RubyOS dungeon demo  frame=", "  pos=(", ",",
          ")  heading="],
        ∀ c ∈ textOf text, Terminal.IsCharacter c := by
    decide +kernel
  intro c member
  have inText := List.mem_of_mem_take member
  rw [hud] at inText
  simp only [List.mem_append] at inText
  rcases inText with
    (((((((first | number) | second) | x) | third) | y) | fourth) |
      heading) | space
  · exact texts _ (by simp) c first
  · exact digit_character number
  · exact texts _ (by simp) c second
  · exact fixed_characters _ _ c x
  · exact texts _ (by simp) c third
  · exact fixed_characters _ _ c y
  · exact texts _ (by simp) c fourth
  · exact fixed_characters _ _ c heading
  · exact replicate_characters (by decide) _ c space

/-- Every row of a frame is as wide as the view and consists of characters. -/
theorem rows_fit (frame : Nat) :
    ∀ row ∈ wanderer.rows trig frame,
      row.length = viewW ∧ ∀ c ∈ row, Terminal.IsCharacter c := by
  intro row member
  rcases List.mem_append.mp member with inView | isHud
  · obtain ⟨r, -, rfl⟩ := List.mem_map.mp inView
    refine ⟨wanderer.length_viewRow trig r, fun c inRow => ?_⟩
    obtain ⟨column, -, rfl⟩ := List.mem_map.mp inRow
    exact cellOf_character _ _ r
  · rw [List.mem_singleton.mp isHud]
    exact ⟨wanderer.length_hudRow frame,
      wanderer.hudRow_characters frame⟩

/-- A frame is a cursor movement and its rows. -/
theorem renderFrame_eq (frame : Nat) :
    wanderer.renderFrame trig frame =
      Terminal.sequence [] 0x48 ++
        (wanderer.rows trig frame).flatMap (· ++ [0x0A]) := by
  rw [renderFrame, rows, List.flatMap_append, List.flatMap_map,
    List.flatMap_singleton]
  simp only [List.append_assoc]
  rfl

/-- On the line the rows have their line ends. -/
theorem endLines_renderFrame (frame : Nat) :
    endLines 0x0D 0x0A (wanderer.renderFrame trig frame) =
      Terminal.sequence [] 0x48 ++
        rowBytes (wanderer.rows trig frame) := by
  have plain {row : List UInt8}
      (characters : ∀ c ∈ row, Terminal.IsCharacter c) :
      endLines 0x0D 0x0A (row ++ [0x0A]) = row ++ [0x0D, 0x0A] := by
    have kept : endLines 0x0D 0x0A row = row :=
      endLines_eq_self fun c member =>
        (Terminal.character_noEnd (characters c member)).2
    rw [endLines_append, kept]
    rfl
  have fit := wanderer.rows_fit trig frame
  have all {rows : List (List UInt8)}
      (characters : ∀ row ∈ rows, ∀ c ∈ row, Terminal.IsCharacter c) :
      endLines 0x0D 0x0A (rows.flatMap (· ++ [0x0A])) = rowBytes rows := by
    induction rows with
    | nil =>
        rfl
    | cons row rest inductionHypothesis =>
        obtain ⟨first, others⟩ := List.forall_mem_cons.mp characters
        rw [List.flatMap_cons, endLines_append, plain first,
          inductionHypothesis others]
        rfl
  rw [renderFrame_eq, endLines_append,
    all fun row member => (fit row member).2]
  rfl

/-- A place of the view is a character of its row. -/
theorem rows_view
    (frame : Nat)
    {r c : Nat}
    (inView : r < viewH)
    (inRow : c < viewW) :
    ((wanderer.rows trig frame)[r]?).bind (·[c]?) =
      some (wanderer.pixel trig r c) := by
  rw [rows, List.getElem?_append_left (by
    rw [List.length_map, List.length_range]
    exact inView), List.getElem?_map, List.getElem?_range inView]
  rw [Option.map_some, Option.bind_some, viewRow, List.getElem?_map,
    List.getElem?_range inRow, Option.map_some]

/-- The last row is the text under the view. -/
theorem rows_hud (frame : Nat) :
    (wanderer.rows trig frame)[viewH]? =
      some (wanderer.hudRow frame) := by
  rw [rows, List.getElem?_append_right (by
    rw [List.length_map, List.length_range]), List.length_map,
    List.length_range, Nat.sub_self]
  rfl

theorem length_rows (frame : Nat) :
    (wanderer.rows trig frame).length = viewH + 1 := by
  rw [rows, List.length_append, List.length_map, List.length_range]
  rfl

/-- What a terminal shows after a frame. -/
theorem view_frame
    (frame : Nat)
    {height width : Nat}
    (tall : viewH + 1 < height)
    (wide : viewW ≤ width)
    (terminal : Terminal height width) :
    let shown :=
      terminal.view
        (endLines 0x0D 0x0A (wanderer.renderFrame trig frame))
    (∀ r c,
      shown.cells (r, c) =
        (((wanderer.rows trig frame)[r]?).bind (·[c]?)).getD
          (terminal.cells (r, c))) ∧
      shown.row = viewH + 1 ∧ shown.column = 0 := by
  have fit := wanderer.rows_fit trig frame
  have home :
      terminal.view (Terminal.sequence [] 0x48) =
        terminal.withCursor 0 0 := by
    rw [← Terminal.display_cursorHome]
    refine Terminal.view_eq_display ?_ terminal
    simp [Terminal.sequence]
  have stands :=
    (StandsFor.home terminal).rows rfl
      (fun row member => (fit row member).2)
      (fun row member => (fit row member).1.trans_le wide)
      (by
        rw [length_rows]
        change 0 + (viewH + 1) < height
        omega)
  have cursor :=
    @Sheet.writeRows_cursor .empty rfl
      (wanderer.rows trig frame)
  dsimp only
  rw [endLines_renderFrame, Terminal.view_append, home]
  refine ⟨fun r c => ?_, ?_, ?_⟩
  · have placed :=
      @Sheet.placed_writeRows .empty rfl
        (wanderer.rows trig frame) r c
    rw [stands.cells, Sheet.laidOver, placed]
    change
      (if 0 ≤ r then
          (((wanderer.rows trig frame)[r - 0]?).bind
            (·[c]?)).or none
        else none).getD _ = _
    rw [if_pos (Nat.zero_le r), Nat.sub_zero, Option.or_none]
  · rw [stands.row, cursor.1, length_rows]
    exact Nat.zero_add _
  · rw [stands.column, cursor.2]
    exact Nat.zero_min _

/-- What a frame shows of the wanderer's view. -/
structure Pictured (cells : Nat × Nat → UInt8) (c : Nat) : Prop where
  hits :
    (wanderer.ray trig c).march 64 (wanderer.ray trig c).start =
      some (wanderer.cast trig c)
  exact :
    (wanderer.ray trig c).Moves →
      (wanderer.ray trig c).ExactHit (wanderer.cast trig c).1
  shown :
    ∀ r < viewH,
      cells (r, c) =
        if InWall (wanderer.cast trig c).1 r then
          asciiByte
            (shadeChar (wanderer.cast trig c).1 (wanderer.cast trig c).2)
        else
          0x20
  nearer :
    ∀ other < viewW,
      (wanderer.cast trig other).1 ≤ (wanderer.cast trig c).1 →
      ∀ r < viewH, cells (r, c) ≠ 0x20 → cells (r, other) ≠ 0x20

/-- The columns of a screen that shows a frame. -/
theorem pictured_of_pixels
    (startOpen : IsOpen ⌊wanderer.px⌋ ⌊wanderer.py⌋)
    {cells : Nat × Nat → UInt8}
    (pixels :
      ∀ r < viewH, ∀ c < viewW, cells (r, c) = wanderer.pixel trig r c)
    {c : Nat}
    (inRow : c < viewW) :
    wanderer.Pictured trig cells c := by
  have cellIs {other : Nat} (inside : other < viewW) {r : Nat}
      (inView : r < viewH) :
      cells (r, other) =
        if InWall (wanderer.cast trig other).1 r then
          asciiByte
            (shadeChar (wanderer.cast trig other).1
              (wanderer.cast trig other).2)
        else
          0x20 := by
    rw [pixels r inView other inside, pixel, cellOf_eq]
  obtain ⟨hits, exactly⟩ := cast_hits (wanderer.ray trig c) startOpen
  refine ⟨hits, exactly, fun r inView => cellIs inRow inView, ?_⟩
  intro other inside nearer r inView notBlank
  have wall : InWall (wanderer.cast trig c).1 r := by
    by_contra noWall
    exact notBlank (by rw [cellIs inRow inView, if_neg noWall])
  rw [cellIs inside inView, if_pos (inWall_of_nearer nearer inView wall)]
  exact (shadeChar_character _ _).2

/-- What a screen shows whose rows are those of a frame. -/
theorem shown_frame
    (frame : Nat)
    {cells below : Nat × Nat → UInt8}
    (rowCells :
      ∀ r c,
        cells (r, c) =
          ((((atFrame trig frame).rows trig frame)[r]?).bind
            (·[c]?)).getD (below (r, c))) :
    (∀ c < viewW, (atFrame trig frame).Pictured trig cells c) ∧
      (∀ c < viewW,
        ((atFrame trig frame).hudRow frame)[c]? =
          some (cells (viewH, c))) ∧
        ∀ r c, viewH < r ∨ viewW ≤ c → cells (r, c) = below (r, c) := by
  have small : 2 * reach ≤ 1 := by decide +kernel
  have here : InBox (atFrame trig frame).px (atFrame trig frame).py reach
      (atFrame trig frame).px (atFrame trig frame).py := by
    rw [InBox, sub_self, sub_self, abs_zero]
    decide +kernel
  have startOpen := (atFrame_free trig frame).inBox small here
  refine ⟨fun c inRow => ?_, fun c inRow => ?_, fun r c outside => ?_⟩
  · refine pictured_of_pixels trig _ startOpen ?_ inRow
    intro r inView c inRow
    rw [rowCells, rows_view trig _ frame inView inRow,
      Option.getD_some]
  · have inside : c < ((atFrame trig frame).hudRow frame).length := by
      rw [length_hudRow]
      exact inRow
    rw [rowCells, rows_hud, Option.bind_some,
      List.getElem?_eq_getElem inside, Option.getD_some]
  · have nothing :
        (((atFrame trig frame).rows trig frame)[r]?).bind
            (·[c]?) =
          none := by
      cases found : ((atFrame trig frame).rows trig frame)[r]? with
      | none =>
          rfl
      | some row =>
          have inside := (List.getElem?_eq_some_iff.mp found).1
          rw [length_rows] at inside
          have length :=
            ((atFrame trig frame).rows_fit trig frame row
              (List.mem_of_getElem? found)).1
          rw [Option.bind_some, List.getElem?_eq_none]
          rw [length]
          omega
    rw [rowCells, nothing, Option.getD_none]

/--
On any terminal that is large enough, whatever it showed before: after each
frame every column shows the wall that its ray comes to, as high as it is
near, the row below shows the text, the rest is as it was and the cursor is
at the beginning of the next row.
-/
theorem frames_on_screen
    (frame : Nat)
    {height width : Nat}
    (tall : viewH + 1 < height)
    (wide : viewW ≤ width)
    (terminal : Terminal height width) :
    let wanderer := atFrame trig frame
    let shown :=
      terminal.view
        (endLines 0x0D 0x0A (wanderer.renderFrame trig frame))
    (∀ c < viewW, wanderer.Pictured trig shown.cells c) ∧
      (∀ c < viewW,
        (wanderer.hudRow frame)[c]? =
          some (shown.cells (viewH, c))) ∧
        (∀ r c,
          viewH < r ∨ viewW ≤ c →
          shown.cells (r, c) = terminal.cells (r, c)) ∧
          shown.row = viewH + 1 ∧ shown.column = 0 := by
  obtain ⟨cells, row, column⟩ :=
    (atFrame trig frame).view_frame trig frame tall wide terminal
  obtain ⟨pictured, hud, outside⟩ := shown_frame trig frame cells
  exact ⟨pictured, hud, outside, row, column⟩

end Wanderer

/-- A screen that has just been cleared. -/
def clearedScreen : Terminal 25 80 where
  cells _ := blankCell
  row := 0
  column := 0
  wrapPending := false
  state := .ground

theorem Wanderer.frames_on_screen_first :
    let wanderer := atFrame .series 0
    let shown :=
      clearedScreen.view
        (endLines 0x0D 0x0A (wanderer.renderFrame .series 0))
    (∀ c < viewW, wanderer.Pictured .series shown.cells c) ∧
      (∀ c < viewW,
        (wanderer.hudRow 0)[c]? =
          some (shown.cells (viewH, c))) ∧
        (∀ r c,
          viewH < r ∨ viewW ≤ c →
          shown.cells (r, c) = clearedScreen.cells (r, c)) ∧
          shown.row = viewH + 1 ∧ shown.column = 0 :=
  frames_on_screen .series 0 (by decide) (by decide)
    clearedScreen

end RubyOnBareMetal.Demo
