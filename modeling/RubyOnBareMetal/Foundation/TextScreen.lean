import RubyOnBareMetal.Foundation.LineTerminal
import RubyOnBareMetal.Foundation.Machine

namespace Foundation

/-!
# A text screen driven by calls

Firmware shows text through calls that print a string, move the cursor and
clear the screen.  The character in the last column ends its row at once, where
a terminal waits for the next character.  Apart from that a text screen can
mirror a terminal, and keeps doing so for the strokes below.
-/

/-- A text screen; its cells hold code units. -/
structure TextScreen (height width : Nat) where
  cells : Nat × Nat → UInt16
  row : Nat
  column : Nat

namespace TextScreen

variable {height width : Nat}

/-- A cell without a character. -/
abbrev blankUnit : UInt16 := 0x20

/-- The next row, or the last one with the screen scrolled up. -/
def lineFeed (screen : TextScreen height width) :
    TextScreen height width :=
  if screen.row + 1 < height then
    { screen with row := screen.row + 1 }
  else
    { screen with
      cells := fun place =>
        if place.1 + 1 < height then
          screen.cells (place.1 + 1, place.2)
        else
          blankUnit }

/-- Put a character at the cursor; the last column ends the row. -/
def put (screen : TextScreen height width) (unit : UInt16) :
    TextScreen height width :=
  let cells :=
    Function.update screen.cells (screen.row, screen.column) unit
  if screen.column + 1 < width then
    { screen with cells := cells, column := screen.column + 1 }
  else
    lineFeed { screen with cells := cells, column := 0 }

/-- A code unit: backspace, line feed, carriage return or a character. -/
def receive (screen : TextScreen height width) (unit : UInt16) :
    TextScreen height width :=
  if unit = 0x08 then
    { screen with column := screen.column - 1 }
  else if unit = 0x0A then
    screen.lineFeed
  else if unit = 0x0D then
    { screen with column := 0 }
  else
    screen.put unit

/-- Print the code units of a string, up to its terminating zero. -/
def outputString
    (screen : TextScreen height width)
    (units : List UInt16) : TextScreen height width :=
  (units.takeWhile (· ≠ 0)).foldl receive screen

/-- Move the cursor; a place outside the screen is refused. -/
def setCursorPosition
    (screen : TextScreen height width)
    (column row : Nat) : TextScreen height width :=
  if column < width ∧ row < height then
    { screen with row := row, column := column }
  else
    screen

/-- Blank cells, and the cursor in the first row and column. -/
def clearScreen (_ : TextScreen height width) :
    TextScreen height width where
  cells _ := blankUnit
  row := 0
  column := 0

end TextScreen

/-! ## A screen that mirrors a terminal -/

namespace Terminal

variable {height width : Nat}

/-- The terminal after the line break that it has put off. -/
def settled (terminal : Terminal height width) : Terminal height width :=
  if terminal.wrapPending then terminal.nextLine else terminal

/-- The column of the cursor, or the width if the row is full. -/
def margin (terminal : Terminal height width) : Nat :=
  if terminal.wrapPending then width else terminal.column

theorem settled_of_not_pending
    {terminal : Terminal height width}
    (noWrap : terminal.wrapPending = false) :
    terminal.settled = terminal := by
  rw [settled, noWrap]
  rfl

end Terminal

/-- The screen shows what the terminal shows once its row is ended. -/
structure Mirrors
    {height width : Nat}
    (screen : TextScreen height width)
    (terminal : Terminal height width) : Prop where
  cells :
    ∀ place,
      screen.cells place = (terminal.settled.cells place).toUInt16
  row : screen.row = terminal.settled.row
  column : screen.column = terminal.settled.column
  rowInside : terminal.row < height
  columnInside : terminal.column < width
  state : terminal.state = .ground

namespace Mirrors

variable {height width : Nat}
variable {screen : TextScreen height width}
variable {terminal : Terminal height width}

/-- Without a line break put off, nothing is to be ended. -/
theorem of_not_pending
    (noWrap : terminal.wrapPending = false)
    (cells :
      ∀ place, screen.cells place = (terminal.cells place).toUInt16)
    (row : screen.row = terminal.row)
    (column : screen.column = terminal.column)
    (rowInside : terminal.row < height)
    (columnInside : terminal.column < width)
    (state : terminal.state = .ground) :
    Mirrors screen terminal := by
  have same := Terminal.settled_of_not_pending noWrap
  exact {
    cells := by rw [same]; exact cells
    row := by rw [same]; exact row
    column := by rw [same]; exact column
    rowInside := rowInside
    columnInside := columnInside
    state := state
  }

/-- What a line break keeps. -/
theorem nextLine_facts
    (rowInside : terminal.row < height)
    (columnInside : terminal.column < width) :
    terminal.nextLine.wrapPending = false ∧
      terminal.nextLine.row < height ∧
        terminal.nextLine.column < width ∧
          terminal.nextLine.state = terminal.state := by
  unfold Terminal.nextLine
  split
  · next below =>
      exact ⟨rfl, below, Nat.zero_lt_of_lt columnInside, rfl⟩
  · exact ⟨rfl, rowInside, Nat.zero_lt_of_lt columnInside, rfl⟩

/-- The settled terminal is mirrored too. -/
theorem settle
    (mirrors : Mirrors screen terminal) :
    Mirrors screen terminal.settled ∧
      terminal.settled.wrapPending = false := by
  by_cases pending : terminal.wrapPending = true
  · have settled : terminal.settled = terminal.nextLine := by
      rw [Terminal.settled, if_pos pending]
    obtain ⟨noWrap, rowInside, columnInside, state⟩ :=
      nextLine_facts mirrors.rowInside mirrors.columnInside
    rw [← settled] at noWrap rowInside columnInside state
    exact ⟨of_not_pending noWrap mirrors.cells mirrors.row mirrors.column
      rowInside columnInside (state.trans mirrors.state), noWrap⟩
  · rw [Bool.not_eq_true] at pending
    rw [Terminal.settled_of_not_pending pending]
    exact ⟨mirrors, pending⟩

/-- A line feed in the first column is a line break. -/
theorem nextLine
    (mirrors : Mirrors screen terminal)
    (noWrap : terminal.wrapPending = false) :
    Mirrors (TextScreen.lineFeed { screen with column := 0 })
      terminal.nextLine := by
  have same := Terminal.settled_of_not_pending noWrap
  obtain ⟨cells, row, -, rowInside, columnInside, state⟩ := mirrors
  rw [same] at cells row
  obtain ⟨broken, stillInside, stillNarrow, sameState⟩ :=
    nextLine_facts rowInside columnInside
  refine of_not_pending broken (fun place => ?_) ?_ ?_ stillInside
    stillNarrow (sameState.trans state)
  · unfold TextScreen.lineFeed Terminal.nextLine
    dsimp only
    rw [row]
    split
    · exact cells place
    · dsimp only
      split
      · exact cells _
      · rfl
  · unfold TextScreen.lineFeed Terminal.nextLine
    dsimp only
    rw [row]
    split <;> rfl
  · unfold TextScreen.lineFeed Terminal.nextLine
    dsimp only
    split
    · split <;> rfl
    · split <;> rfl

/-- The screen breaks a full row at once, the terminal puts that off. -/
theorem putOff
    (mirrors : Mirrors screen terminal)
    (noWrap : terminal.wrapPending = false) :
    Mirrors (TextScreen.lineFeed { screen with column := 0 })
      ({ terminal with wrapPending := true } : Terminal height width) := by
  have noMore :=
    (nextLine_facts mirrors.rowInside mirrors.columnInside).1
  obtain ⟨cells, row, column, -, -, -⟩ := mirrors.nextLine noWrap
  rw [Terminal.settled_of_not_pending noMore] at cells row column
  have settled :
      Terminal.settled { terminal with wrapPending := true } =
        terminal.nextLine := by
    rw [Terminal.settled, if_pos rfl]
    unfold Terminal.nextLine
    dsimp only
  exact {
    cells := by rw [settled]; exact cells
    row := by rw [settled]; exact row
    column := by rw [settled]; exact column
    rowInside := mirrors.rowInside
    columnInside := mirrors.columnInside
    state := mirrors.state
  }

/-- A character is put into the same cell, and ends the same row. -/
theorem put
    (mirrors : Mirrors screen terminal)
    (noWrap : terminal.wrapPending = false)
    (c : UInt8) :
    Mirrors (screen.put c.toUInt16) (terminal.put c) := by
  have same := Terminal.settled_of_not_pending noWrap
  obtain ⟨cells, row, column, rowInside, columnInside, state⟩ := mirrors
  rw [same] at cells row column
  have covered (place : Nat × Nat) :
      Function.update screen.cells (screen.row, screen.column) c.toUInt16
          place =
        (Function.update terminal.cells (terminal.row, terminal.column) c
          place).toUInt16 := by
    rw [row, column]
    by_cases here : place = (terminal.row, terminal.column)
    · rw [here, Function.update_self, Function.update_self]
    · rw [Function.update_of_ne here, Function.update_of_ne here, cells]
  have sameSide :
      screen.column + 1 < width ↔ terminal.column + 1 < width := by
    rw [column]
  unfold TextScreen.put Terminal.put
  dsimp only
  by_cases inside : terminal.column + 1 < width
  · rw [if_pos (sameSide.mpr inside), if_pos inside]
    exact of_not_pending noWrap covered row (congrArg (· + 1) column)
      rowInside inside state
  · rw [if_neg (sameSide.not.mpr inside), if_neg inside]
    have full :
        Mirrors
          { screen with
            cells :=
              Function.update screen.cells (screen.row, screen.column)
                c.toUInt16 }
          { terminal with
            cells :=
              Function.update terminal.cells
                (terminal.row, terminal.column) c } :=
      of_not_pending noWrap covered row column rowInside columnInside state
    exact full.putOff noWrap

/-- The terminal makes the line break before the next character. -/
theorem view_character
    (mirrors : Mirrors screen terminal)
    {c : UInt8}
    (character : Terminal.IsCharacter c) :
    terminal.view [c] = terminal.settled.put c := by
  have notEscape : c ≠ 0x1B := by
    rintro rfl
    exact absurd character (by decide)
  rw [Terminal.view_eq_display (List.forall_mem_singleton.mpr
    (Terminal.character_noEnd character))]
  simp only [Terminal.display_cons, Terminal.display_nil, Terminal.feed,
    if_neg notEscape, mirrors.state, if_pos character, Terminal.print,
    Terminal.settled]

/-- A character is printed alike, also behind a full row. -/
theorem print
    (mirrors : Mirrors screen terminal)
    {c : UInt8}
    (character : Terminal.IsCharacter c) :
    Mirrors (screen.receive c.toUInt16) (terminal.view [c]) := by
  have range := character
  rw [Terminal.IsCharacter, UInt8.le_iff_toNat_le] at range
  have least := range.1
  change 32 ≤ c.toNat at least
  have notControl {unit : UInt16} (low : unit.toNat < 32) :
      c.toUInt16 ≠ unit := by
    intro same
    have := congrArg UInt16.toNat same
    rw [UInt8.toNat_toUInt16] at this
    omega
  have received : screen.receive c.toUInt16 = screen.put c.toUInt16 := by
    rw [TextScreen.receive, if_neg (notControl (by decide)),
      if_neg (notControl (by decide)), if_neg (notControl (by decide))]
  obtain ⟨settled, noWrap⟩ := mirrors.settle
  rw [received, mirrors.view_character character]
  exact settled.put noWrap c

/-- A line end that follows no full row is the same on both. -/
theorem lineEnd
    (mirrors : Mirrors screen terminal)
    (noWrap : terminal.wrapPending = false) :
    Mirrors ((screen.receive 0x0D).receive 0x0A)
      (terminal.view [0x0D, 0x0A]) := by
  rw [Terminal.view_lineEnd mirrors.state]
  exact mirrors.nextLine noWrap

/-- So is a carriage return. -/
theorem carriageReturn
    (mirrors : Mirrors screen terminal)
    (noWrap : terminal.wrapPending = false) :
    Mirrors (screen.receive 0x0D) (terminal.view [0x0D]) := by
  have same := Terminal.settled_of_not_pending noWrap
  obtain ⟨cells, row, -, rowInside, columnInside, state⟩ := mirrors
  rw [same] at cells row
  have shown : terminal.view [0x0D] = terminal.carriageReturn := by
    change terminal.receive 0x0D = _
    rw [Terminal.receive, state]
    rfl
  rw [shown]
  exact of_not_pending rfl cells row rfl rowInside
    (Nat.zero_lt_of_lt columnInside) state

/-- A movement inside the screen, without a line break put off. -/
theorem moveTo
    (mirrors : Mirrors screen terminal)
    (noWrap : terminal.wrapPending = false)
    {row column : Nat}
    (rowInside : row < height)
    (columnInside : column < width) :
    Mirrors (screen.setCursorPosition column row)
      (terminal.withCursor row column) := by
  have same := Terminal.settled_of_not_pending noWrap
  have cells := mirrors.cells
  rw [same] at cells
  have sameRow : min row (height - 1) = row :=
    Nat.min_eq_left (Nat.le_sub_one_of_lt rowInside)
  have sameColumn : min column (width - 1) = column :=
    Nat.min_eq_left (Nat.le_sub_one_of_lt columnInside)
  rw [TextScreen.setCursorPosition, if_pos ⟨columnInside, rowInside⟩,
    Terminal.withCursor, sameRow, sameColumn]
  exact of_not_pending rfl cells rfl rfl rowInside columnInside rfl

/-- On cleared screens nothing of what was there before matters. -/
theorem cleared
    (tall : 0 < height)
    (wide : 0 < width)
    (screen : TextScreen height width)
    (terminal : Terminal height width) :
    Mirrors (screen.clearScreen.setCursorPosition 0 0)
      ({ terminal with cells := fun _ => blankCell }.withCursor 0 0) := by
  rw [TextScreen.setCursorPosition, if_pos ⟨wide, tall⟩]
  exact of_not_pending rfl (fun _ => rfl) (Nat.zero_min _).symm
    (Nat.zero_min _).symm
    (Nat.lt_of_le_of_lt (Nat.min_le_left 0 _) tall)
    (Nat.lt_of_le_of_lt (Nat.min_le_left 0 _) wide) rfl

end Mirrors

/-! ## Strokes -/

/-- What can be written to a terminal and drawn on a text screen. -/
inductive PenStroke where
  | character (c : UInt8) (isCharacter : Terminal.IsCharacter c)
  | lineEnd
  | carriageReturn
  | moveTo (row column : Nat)
  | home
  | erase
  | pen (codes : List Nat)
  | cursor (shown : Bool)

namespace PenStroke

/-- The numbers of a sequence, with separators between them. -/
def numbers (codes : List Nat) : List UInt8 :=
  [(0x3B : UInt8)].intercalate (codes.map decimalDigits)

/-- The bytes of a stroke; a line end is one byte for the program. -/
def bytes : PenStroke → List UInt8
  | character c _ => [c]
  | lineEnd => [0x0A]
  | carriageReturn => [0x0D]
  | moveTo row column => Terminal.cursorTo row column
  | home => Terminal.sequence [] 0x48
  | erase => Terminal.sequence [0x32] 0x4A ++ Terminal.sequence [] 0x48
  | pen codes => Terminal.sequence (numbers codes) 0x6D
  | cursor shown =>
      Terminal.sequence [0x3F, 0x32, 0x35] (if shown then 0x68 else 0x6C)

/-- The column of the cursor after a stroke; it is the width in a full row. -/
def columnAfter (width column : Nat) : PenStroke → Nat
  | character _ _ => if column < width then column + 1 else 1
  | lineEnd => 0
  | carriageReturn => 0
  | moveTo _ column => column
  | home => 0
  | erase => 0
  | pen _ => column
  | cursor _ => column

/-- A stroke that moves the cursor does so from a row that is not full. -/
def Fits (height width column : Nat) : PenStroke → Prop
  | character _ _ => True
  | lineEnd => column < width
  | carriageReturn => column < width
  | moveTo row other => column < width ∧ row < height ∧ other < width
  | home => column < width
  | erase => True
  | pen _ => True
  | cursor _ => True

/-- What a stroke draws on a text screen. -/
def draw
    {height width : Nat}
    (screen : TextScreen height width) :
    PenStroke → TextScreen height width
  | character c _ => screen.receive c.toUInt16
  | lineEnd => (screen.receive 0x0D).receive 0x0A
  | carriageReturn => screen.receive 0x0D
  | moveTo row column => screen.setCursorPosition column row
  | home => screen.setCursorPosition 0 0
  | erase => screen.clearScreen.setCursorPosition 0 0
  | pen _ => screen
  | cursor _ => screen

/-- The columns that strokes go through, as long as they fit. -/
def columns (height width : Nat) : Machine Nat PenStroke Unit where
  step column stroke := ((), stroke.columnAfter width column)
  admits := Fits height width

/-- The bytes of numbers are digits and separators. -/
theorem mem_numbers
    {codes : List Nat}
    {c : UInt8}
    (member : c ∈ numbers codes) :
    IsDigit c ∨ c = 0x3B := by
  induction codes with
  | nil =>
      cases member
  | cons code rest inductionHypothesis =>
      cases rest with
      | nil =>
          rw [numbers, List.map_singleton,
            List.intercalate_singleton] at member
          exact .inl (decimalDigits_digit member)
      | cons next rest =>
          rw [numbers, List.map_cons, List.map_cons,
            List.intercalate_cons_cons, List.append_assoc] at member
          rcases List.mem_append.mp member with digit | later
          · exact .inl (decimalDigits_digit digit)
          · rcases List.mem_cons.mp later with separator | later
            · exact .inr separator
            · exact inductionHypothesis later

/-- Numbers are the body of a sequence. -/
theorem numbers_body (codes : List Nat) :
    ∀ c ∈ numbers codes, Terminal.IsBody c := by
  intro c member
  rcases mem_numbers member with digit | rfl
  · exact Terminal.isBody_digit digit
  · decide

/-- No byte of a sequence ends a line. -/
theorem sequence_noEnd
    {body : List UInt8}
    (bodyBytes : ∀ c ∈ body, Terminal.IsBody c)
    {final : UInt8}
    (last : Terminal.IsLast final) :
    ∀ c ∈ Terminal.sequence body final, c ≠ 0x0D ∧ c ≠ 0x0A := by
  have noEnd {c : UInt8} (least : 0x20 ≤ c) : c ≠ 0x0D ∧ c ≠ 0x0A := by
    constructor
    · rintro rfl
      exact absurd least (by decide)
    · rintro rfl
      exact absurd least (by decide)
  intro c member
  rcases List.mem_cons.mp member with rfl | member
  · decide
  · rcases List.mem_cons.mp member with rfl | member
    · decide
    · rcases List.mem_append.mp member with inBody | isFinal
      · exact noEnd (bodyBytes c inBody).1
      · rw [List.mem_singleton.mp isFinal]
        exact noEnd (UInt8.le_trans (by decide) last.1)

end PenStroke

namespace Terminal

variable {height width : Nat}

/-- What a sequence does when it comes over the line. -/
theorem view_sequence
    (terminal : Terminal height width)
    {body : List UInt8}
    (bodyBytes : ∀ c ∈ body, IsBody c)
    {final : UInt8}
    (last : IsLast final) :
    terminal.view (endLines 0x0D 0x0A (sequence body final)) =
      (terminal.execute body final).withState .ground := by
  have noEnd := PenStroke.sequence_noEnd bodyBytes last
  rw [endLines_eq_self fun c member => (noEnd c member).2,
    view_eq_display noEnd, display_sequence terminal bodyBytes last]

/-- A movement that comes over the line. -/
theorem view_cursorTo
    (terminal : Terminal height width)
    (row column : Nat) :
    terminal.view (endLines 0x0D 0x0A (cursorTo row column)) =
      terminal.withCursor row column := by
  have body :
      decimalDigits (row + 1) ++ 0x3B :: decimalDigits (column + 1) =
        PenStroke.numbers [row + 1, column + 1] := by
    simp [PenStroke.numbers, List.intercalate_cons_cons]
  have bodyBytes := PenStroke.numbers_body [row + 1, column + 1]
  rw [← body] at bodyBytes
  rw [← display_cursorTo, cursorTo,
    view_sequence terminal bodyBytes (by decide),
    display_sequence terminal bodyBytes (by decide)]

/-- The cursor is moved home over the line. -/
theorem view_home (terminal : Terminal height width) :
    terminal.view (endLines 0x0D 0x0A (sequence [] 0x48)) =
      terminal.withCursor 0 0 := by
  rw [← display_cursorHome, view_sequence terminal (by simp) (by decide),
    display_sequence terminal (by simp) (by decide)]

/-- The screen is erased over the line. -/
theorem view_erase (terminal : Terminal height width) :
    terminal.view
        (endLines 0x0D 0x0A (sequence [0x32] 0x4A ++ sequence [] 0x48)) =
      { terminal with cells := fun _ => blankCell }.withCursor 0 0 := by
  have erased :
      (terminal.execute [0x32] 0x4A).withState .ground =
        { terminal with
          cells := fun _ => blankCell
          state := .ground } :=
    rfl
  rw [endLines_append, view_append,
    view_sequence terminal (List.forall_mem_singleton.mpr (by decide))
      (by decide),
    view_home, erased]
  rfl

/-- A sequence that is not executed changes nothing. -/
theorem view_ignored
    {terminal : Terminal height width}
    (ground : terminal.state = .ground)
    {body : List UInt8}
    (bodyBytes : ∀ c ∈ body, IsBody c)
    {final : UInt8}
    (last : IsLast final)
    (ignored : terminal.execute body final = terminal) :
    terminal.view (endLines 0x0D 0x0A (sequence body final)) =
      terminal := by
  rw [view_sequence terminal bodyBytes last, ignored, withState, ← ground]

end Terminal

namespace Mirrors

variable {height width : Nat}
variable {screen : TextScreen height width}
variable {terminal : Terminal height width}

/-- In a row that is not full no line break is put off. -/
theorem noWrap_of_margin
    (notFull : terminal.margin < width) :
    terminal.wrapPending = false := by
  rw [← Bool.not_eq_true]
  intro pending
  rw [Terminal.margin, if_pos pending] at notFull
  exact Nat.lt_irrefl width notFull

theorem margin_of_not_pending
    (noWrap : terminal.wrapPending = false) :
    terminal.margin = terminal.column := by
  rw [Terminal.margin, noWrap]
  rfl

/-- The column behind a character. -/
theorem margin_print
    (mirrors : Mirrors screen terminal)
    {c : UInt8}
    (character : Terminal.IsCharacter c) :
    (terminal.view [c]).margin =
      if terminal.margin < width then terminal.margin + 1 else 1 := by
  have columnInside := mirrors.columnInside
  have behind {settled : Terminal height width}
      (noWrap : settled.wrapPending = false)
      (inside : settled.column < width) :
      (settled.put c).margin = settled.column + 1 := by
    unfold Terminal.put Terminal.margin
    dsimp only
    split
    · simp only [noWrap, Bool.false_eq_true, if_false]
    · rw [if_pos rfl]
      omega
  rw [mirrors.view_character character]
  by_cases pending : terminal.wrapPending = true
  · obtain ⟨noWrap, -, -, -⟩ :=
      nextLine_facts mirrors.rowInside columnInside
    have first : terminal.nextLine.column = 0 := by
      unfold Terminal.nextLine
      split <;> rfl
    have full : terminal.margin = width := if_pos pending
    have wide : terminal.nextLine.column < width := by
      rw [first]
      exact Nat.zero_lt_of_lt columnInside
    rw [Terminal.settled, if_pos pending, full,
      if_neg (Nat.lt_irrefl width), behind noWrap wide, first]
  · rw [Bool.not_eq_true] at pending
    rw [Terminal.settled_of_not_pending pending,
      margin_of_not_pending pending, if_pos columnInside,
      behind pending columnInside]

/-- A stroke that fits is drawn on the screen as on the terminal. -/
theorem stroke
    (mirrors : Mirrors screen terminal)
    {stroke : PenStroke}
    (fits : stroke.Fits height width terminal.margin) :
    Mirrors (stroke.draw screen)
        (terminal.view (endLines 0x0D 0x0A stroke.bytes)) ∧
      (terminal.view (endLines 0x0D 0x0A stroke.bytes)).margin =
        stroke.columnAfter width terminal.margin := by
  cases stroke with
  | character c isCharacter =>
      have sent : endLines 0x0D 0x0A [c] = [c] :=
        endLines_eq_self (List.forall_mem_singleton.mpr
          (Terminal.character_noEnd isCharacter).2)
      rw [PenStroke.bytes, sent]
      exact ⟨mirrors.print isCharacter, mirrors.margin_print isCharacter⟩
  | lineEnd =>
      have noWrap := noWrap_of_margin fits
      have sent : endLines (0x0D : UInt8) 0x0A [0x0A] = [0x0D, 0x0A] := rfl
      rw [PenStroke.bytes, sent]
      refine ⟨mirrors.lineEnd noWrap, ?_⟩
      obtain ⟨broken, -, -, -⟩ :=
        nextLine_facts mirrors.rowInside mirrors.columnInside
      rw [Terminal.view_lineEnd mirrors.state,
        margin_of_not_pending broken]
      unfold Terminal.nextLine
      split <;> rfl
  | carriageReturn =>
      have noWrap := noWrap_of_margin fits
      have sent : endLines (0x0D : UInt8) 0x0A [0x0D] = [0x0D] := rfl
      rw [PenStroke.bytes, sent]
      refine ⟨mirrors.carriageReturn noWrap, ?_⟩
      change (terminal.receive 0x0D).margin = 0
      rw [Terminal.receive, mirrors.state]
      rfl
  | moveTo row column =>
      obtain ⟨notFull, rowInside, columnInside⟩ := fits
      rw [PenStroke.bytes, terminal.view_cursorTo row column]
      refine ⟨mirrors.moveTo (noWrap_of_margin notFull) rowInside
        columnInside, ?_⟩
      rw [margin_of_not_pending rfl]
      exact Nat.min_eq_left (Nat.le_sub_one_of_lt columnInside)
  | home =>
      rw [PenStroke.bytes, terminal.view_home]
      refine ⟨mirrors.moveTo (noWrap_of_margin fits)
        (Nat.zero_lt_of_lt mirrors.rowInside)
        (Nat.zero_lt_of_lt mirrors.columnInside), ?_⟩
      rw [margin_of_not_pending rfl]
      exact Nat.zero_min _
  | erase =>
      rw [PenStroke.bytes, terminal.view_erase]
      refine ⟨cleared (Nat.zero_lt_of_lt mirrors.rowInside)
        (Nat.zero_lt_of_lt mirrors.columnInside) screen terminal, ?_⟩
      rw [margin_of_not_pending rfl]
      exact Nat.zero_min _
  | pen codes =>
      have ignored :
          terminal.execute (PenStroke.numbers codes) 0x6D = terminal := by
        simp [Terminal.execute]
      rw [PenStroke.bytes, Terminal.view_ignored mirrors.state
        (PenStroke.numbers_body codes) (by decide) ignored]
      exact ⟨mirrors, rfl⟩
  | cursor shown =>
      have bodyBytes :
          ∀ c ∈ [(0x3F : UInt8), 0x32, 0x35], Terminal.IsBody c := by
        simp [Terminal.IsBody]
      rw [PenStroke.bytes, Terminal.view_ignored mirrors.state bodyBytes
        (by cases shown <;> decide) (by cases shown <;> rfl)]
      exact ⟨mirrors, rfl⟩

/-- Strokes that fit are drawn on the screen as on the terminal. -/
theorem strokes
    (mirrors : Mirrors screen terminal)
    {strokes : List PenStroke}
    (fit :
      (PenStroke.columns height width).Admissible terminal.margin strokes) :
    let shown :=
      terminal.view (endLines 0x0D 0x0A (strokes.flatMap PenStroke.bytes))
    Mirrors (strokes.foldl PenStroke.draw screen) shown ∧
      shown.margin =
        (PenStroke.columns height width).run terminal.margin strokes := by
  induction strokes generalizing screen terminal with
  | nil =>
      exact ⟨mirrors, rfl⟩
  | cons first rest inductionHypothesis =>
      obtain ⟨firstFits, restFit⟩ := fit
      obtain ⟨drawn, column⟩ := mirrors.stroke firstFits
      have fitsThen :
          (PenStroke.columns height width).Admissible
            (terminal.view (endLines 0x0D 0x0A first.bytes)).margin rest := by
        rw [column]
        exact restFit
      have later := inductionHypothesis drawn fitsThen
      rw [column] at later
      rw [List.flatMap_cons, endLines_append, Terminal.view_append]
      exact later

end Mirrors

end Foundation
