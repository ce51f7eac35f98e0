import Mathlib.Logic.Function.Basic
import RubyOnBareMetal.Foundation.Bytes

namespace Foundation

/-!
# An ANSI terminal

A screen of cells and a cursor, driven by bytes.  A character in the last
column leaves the cursor there, and the next one begins a new line.  An escape
byte begins a new sequence in every state.  The abstract side is a sheet, on
which characters are placed; a terminal stands for a sheet laid over what was
on the screen before.
-/

/-- A cell without a character. -/
abbrev blankCell : UInt8 := 0x20

/-- Inside a control sequence the bytes of its body are collected. -/
inductive TerminalState where
  | ground
  | escape
  | control (body : List UInt8)
  deriving Repr, DecidableEq

/-- A terminal; a cell is found by its row and its column. -/
structure Terminal (height width : Nat) where
  cells : Nat × Nat → UInt8
  row : Nat
  column : Nat
  wrapPending : Bool
  state : TerminalState

namespace Terminal

variable {height width : Nat}

/-- The first column of the next row; the last row is scrolled up. -/
def nextLine (terminal : Terminal height width) :
    Terminal height width :=
  if terminal.row + 1 < height then
    { terminal with
      row := terminal.row + 1
      column := 0
      wrapPending := false }
  else
    { terminal with
      cells := fun place =>
        if place.1 + 1 < height then
          terminal.cells (place.1 + 1, place.2)
        else
          blankCell
      column := 0
      wrapPending := false }

/-- Put a character into the cell at the cursor. -/
def put (terminal : Terminal height width) (c : UInt8) :
    Terminal height width :=
  let cells :=
    Function.update terminal.cells (terminal.row, terminal.column) c
  if terminal.column + 1 < width then
    { terminal with cells := cells, column := terminal.column + 1 }
  else
    { terminal with cells := cells, wrapPending := true }

/-- Print a character. -/
def print (terminal : Terminal height width) (c : UInt8) :
    Terminal height width :=
  (if terminal.wrapPending then terminal.nextLine else terminal).put c

/-- The parameters of a control sequence; an empty one is missing. -/
def controlParams (body : List UInt8) : List (Option Nat) :=
  (body.splitOn 0x3B).map fun digits =>
    if digits = [] then none else some (decimalValue digits)

/-- A coordinate from zero; it is written from one, or is missing. -/
def coordinate (params : List (Option Nat)) (index : Nat) : Nat :=
  max 1 ((params.getD index none).getD 1) - 1

/-- Execute `CUP`, `ED 2` or the switch to the alternate screen. -/
def execute
    (terminal : Terminal height width)
    (body : List UInt8)
    (final : UInt8) : Terminal height width :=
  if final = 0x48 then
    { terminal with
      row := min (coordinate (controlParams body) 0) (height - 1)
      column := min (coordinate (controlParams body) 1) (width - 1)
      wrapPending := false }
  else if
      final = 0x4A ∧ body = [0x32] ∨
        final = 0x68 ∧ body = [0x3F, 0x31, 0x30, 0x34, 0x39] then
    { terminal with cells := fun _ => blankCell }
  else
    terminal

/-- The bytes of the body of a control sequence, and those that end it. -/
abbrev IsBody (c : UInt8) : Prop :=
  0x20 ≤ c ∧ c ≤ 0x3F

abbrev IsLast (c : UInt8) : Prop :=
  0x40 ≤ c ∧ c ≤ 0x7E

/-- A character of one column. -/
abbrev IsCharacter (c : UInt8) : Prop :=
  0x20 ≤ c ∧ c ≤ 0x7E

/-- The terminal in another state. -/
def withState
    (terminal : Terminal height width)
    (state : TerminalState) : Terminal height width :=
  { terminal with state := state }

/-- What a byte does. -/
def feed (terminal : Terminal height width) (c : UInt8) :
    Terminal height width :=
  if c = 0x1B then
    terminal.withState .escape
  else
    match terminal.state with
    | .ground =>
        if IsCharacter c then terminal.print c else terminal
    | .escape =>
        terminal.withState (if c = 0x5B then .control [] else .ground)
    | .control body =>
        if IsBody c then
          terminal.withState (.control (body ++ [c]))
        else if IsLast c then
          (terminal.execute body c).withState .ground
        else
          terminal.withState .ground

/-- What bytes do, one after the other. -/
def display (terminal : Terminal height width) (bytes : List UInt8) :
    Terminal height width :=
  bytes.foldl feed terminal

/-- A control sequence with its body and its last byte. -/
def sequence (body : List UInt8) (final : UInt8) : List UInt8 :=
  0x1B :: 0x5B :: (body ++ [final])

/-! ## Control sequences -/

/-- Bytes can be written in parts. -/
theorem display_append
    (terminal : Terminal height width)
    (first second : List UInt8) :
    terminal.display (first ++ second) =
      (terminal.display first).display second :=
  List.foldl_append

@[simp] theorem display_nil (terminal : Terminal height width) :
    terminal.display [] = terminal :=
  rfl

@[simp] theorem display_cons
    (terminal : Terminal height width)
    (c : UInt8)
    (rest : List UInt8) :
    terminal.display (c :: rest) = (terminal.feed c).display rest :=
  rfl

/-- What a sequence does does not depend on the state. -/
theorem execute_state
    (terminal : Terminal height width)
    (state : TerminalState)
    (body : List UInt8)
    (final : UInt8) :
    ((terminal.withState state).execute body final).withState .ground =
      (terminal.execute body final).withState .ground := by
  unfold execute
  split
  · rfl
  · split <;> rfl

/-- The bytes of a body are collected. -/
theorem display_body
    {body : List UInt8}
    (bodyBytes : ∀ c ∈ body, IsBody c)
    (terminal : Terminal height width)
    (collected : List UInt8) :
    (terminal.withState (.control collected)).display body =
      terminal.withState (.control (collected ++ body)) := by
  induction body generalizing collected with
  | nil =>
      rw [List.append_nil]
      rfl
  | cons c rest inductionHypothesis =>
      obtain ⟨first, restBytes⟩ := List.forall_mem_cons.mp bodyBytes
      have notEscape : c ≠ 0x1B := by
        rintro rfl
        exact absurd first (by decide)
      have fed :
          (terminal.withState (.control collected)).feed c =
            terminal.withState (.control (collected ++ [c])) := by
        simp only [feed, withState, if_neg notEscape, if_pos first]
      rw [display_cons, fed, inductionHypothesis restBytes,
        List.append_assoc, List.singleton_append]

/-- A control sequence is executed, whatever came before it. -/
theorem display_sequence
    (terminal : Terminal height width)
    {body : List UInt8}
    {final : UInt8}
    (bodyBytes : ∀ c ∈ body, IsBody c)
    (last : IsLast final) :
    terminal.display (sequence body final) =
      (terminal.execute body final).withState .ground := by
  have notEscape : final ≠ 0x1B := by
    rintro rfl
    exact absurd last (by decide)
  have notBody : ¬IsBody final := by
    intro inBody
    have most := UInt8.le_iff_toNat_le.mp inBody.2
    have least := UInt8.le_iff_toNat_le.mp last.1
    change final.toNat ≤ 63 at most
    change 64 ≤ final.toNat at least
    omega
  have opened :
      (terminal.feed 0x1B).feed 0x5B =
        terminal.withState (.control []) := by
    rfl
  have closed :
      (terminal.withState (.control body)).feed final =
        (terminal.execute body final).withState .ground := by
    rw [← execute_state terminal (.control body)]
    simp only [feed, withState, if_neg notEscape, if_neg notBody,
      if_pos last]
  rw [sequence, display_cons, display_cons, opened, display_append,
    display_body bodyBytes, List.nil_append, display_cons, display_nil,
    closed]

/-- A digit is a byte of a body. -/
theorem isBody_digit {c : UInt8} (digit : IsDigit c) : IsBody c := by
  have least := UInt8.le_iff_toNat_le.mp digit.1
  have most := UInt8.le_iff_toNat_le.mp digit.2
  change 48 ≤ c.toNat at least
  change c.toNat ≤ 57 at most
  constructor
  · rw [UInt8.le_iff_toNat_le]
    change 32 ≤ c.toNat
    omega
  · rw [UInt8.le_iff_toNat_le]
    change c.toNat ≤ 63
    omega

/-- Two numbers with a separator are two parameters. -/
theorem controlParams_two (first second : Nat) :
    controlParams
        (decimalDigits first ++ 0x3B :: decimalDigits second) =
      [some first, some second] := by
  have noSeparator (number : Nat) :
      (0x3B : UInt8) ∉ decimalDigits number := by
    intro member
    exact absurd (decimalDigits_digit member) (by decide)
  have value (number : Nat) :
      (if decimalDigits number = [] then
          none
        else
          some (decimalValue (decimalDigits number))) =
        some number := by
    rw [if_neg (decimalDigits_ne_nil number),
      decimalValue_decimalDigits]
  rw [controlParams,
    List.splitOn_append_cons_self_of_not_mem (noSeparator first),
    List.splitOn_eq_singleton (noSeparator second), List.map_cons,
    List.map_cons, value, value]
  rfl

/-- The terminal with its cursor in another place. -/
def withCursor
    (terminal : Terminal height width)
    (row column : Nat) : Terminal height width :=
  { terminal with
    row := min row (height - 1)
    column := min column (width - 1)
    wrapPending := false
    state := .ground }

/-- The sequence that moves the cursor; it counts from one. -/
def cursorTo (row column : Nat) : List UInt8 :=
  sequence
    (decimalDigits (row + 1) ++ 0x3B :: decimalDigits (column + 1)) 0x48

/-- A cursor movement stops at the edges of the screen. -/
theorem display_cursorTo
    (terminal : Terminal height width)
    (row column : Nat) :
    terminal.display (cursorTo row column) =
      terminal.withCursor row column := by
  have bodyBytes :
      ∀ c ∈ decimalDigits (row + 1) ++ 0x3B :: decimalDigits (column + 1),
        IsBody c := by
    intro c member
    rcases List.mem_append.mp member with inFirst | inSecond
    · exact isBody_digit (decimalDigits_digit inFirst)
    · rcases List.mem_cons.mp inSecond with rfl | inSecond
      · decide
      · exact isBody_digit (decimalDigits_digit inSecond)
  have fromOne (number : Nat) : max 1 (number + 1) - 1 = number := by
    omega
  rw [cursorTo, display_sequence terminal bodyBytes (by decide), execute,
    if_pos rfl, controlParams_two]
  simp only [coordinate, List.getD_cons_zero, List.getD_cons_succ,
    Option.getD_some, fromOne, withCursor, withState]

/-- Without coordinates the cursor moves to the first row and column. -/
theorem display_cursorHome (terminal : Terminal height width) :
    terminal.display (sequence [] 0x48) = terminal.withCursor 0 0 := by
  rw [display_sequence terminal (by simp) (by decide), execute,
    if_pos rfl]
  rfl

end Terminal

/-! ## Sheets -/

/-- Characters in their places, and the place of the next one. -/
structure Sheet where
  placed : Nat × Nat → Option UInt8
  row : Nat
  column : Nat

namespace Sheet

/-- A sheet with nothing on it. -/
def empty : Sheet where
  placed _ := none
  row := 0
  column := 0

/-- Go on in another place. -/
def moveTo (sheet : Sheet) (row column : Nat) : Sheet :=
  { sheet with row := row, column := column }

/-- Place a character. -/
def place (sheet : Sheet) (c : UInt8) : Sheet :=
  { sheet with
    placed :=
      Function.update sheet.placed (sheet.row, sheet.column) (some c)
    column := sheet.column + 1 }

/-- Place characters from left to right. -/
def write (sheet : Sheet) (text : List UInt8) : Sheet :=
  text.foldl place sheet

/-- The cells of a screen that a sheet is laid over. -/
def laidOver (sheet : Sheet) (below : Nat × Nat → UInt8) :
    Nat × Nat → UInt8 :=
  fun place => (sheet.placed place).getD (below place)

/-- Characters that are placed move the cursor on in its row. -/
theorem write_cursor
    (sheet : Sheet)
    (text : List UInt8) :
    (sheet.write text).row = sheet.row ∧
      (sheet.write text).column = sheet.column + text.length := by
  induction text generalizing sheet with
  | nil =>
      exact ⟨rfl, rfl⟩
  | cons c text inductionHypothesis =>
      obtain ⟨row, column⟩ := inductionHypothesis (sheet.place c)
      refine ⟨row, column.trans ?_⟩
      rw [place, List.length_cons, Nat.add_assoc, Nat.add_comm 1]

/-- A sheet hides what it was laid over before. -/
theorem laidOver_laidOver
    (sheet : Sheet)
    (below : Nat × Nat → UInt8) :
    sheet.laidOver (sheet.laidOver below) = sheet.laidOver below := by
  funext place
  unfold laidOver
  cases sheet.placed place <;> rfl

/-- Two screens look the same below what a sheet hides. -/
theorem laidOver_eq_iff
    (sheet : Sheet)
    (below other : Nat × Nat → UInt8) :
    sheet.laidOver below = sheet.laidOver other ↔
      ∀ place, sheet.placed place = none → below place = other place := by
  rw [funext_iff]
  refine forall_congr' fun place => ?_
  unfold laidOver
  cases sheet.placed place with
  | none =>
      simp
  | some c =>
      simp

/-- A character that is placed lies over everything. -/
theorem place_laidOver
    (sheet : Sheet)
    (c : UInt8)
    (below : Nat × Nat → UInt8) :
    (sheet.place c).laidOver below =
      Function.update (sheet.laidOver below) (sheet.row, sheet.column) c := by
  funext other
  unfold laidOver place
  dsimp only
  by_cases same : other = (sheet.row, sheet.column)
  · rw [same, Function.update_self, Function.update_self]
    rfl
  · rw [Function.update_of_ne same, Function.update_of_ne same]

end Sheet

/-! ## A terminal that stands for a sheet -/

/-- The screen shows a sheet laid over what was there before. -/
structure StandsFor
    {height width : Nat}
    (terminal : Terminal height width)
    (sheet : Sheet)
    (below : Nat × Nat → UInt8) : Prop where
  cells : terminal.cells = sheet.laidOver below
  row : terminal.row = sheet.row
  column : terminal.column = min sheet.column (width - 1)
  wraps : terminal.wrapPending = true → width ≤ sheet.column
  state : terminal.state = .ground

namespace StandsFor

variable {height width : Nat}
variable {terminal : Terminal height width}
variable {sheet : Sheet}
variable {below : Nat × Nat → UInt8}

/-- A character inside the right margin is placed. -/
theorem place
    (stands : StandsFor terminal sheet below)
    {c : UInt8}
    (character : Terminal.IsCharacter c)
    (fits : sheet.column < width) :
    StandsFor (terminal.feed c) (sheet.place c) below := by
  obtain ⟨cells, row, column, wraps, state⟩ := stands
  have notEscape : c ≠ 0x1B := by
    rintro rfl
    exact absurd character (by decide)
  have here : terminal.column = sheet.column := by omega
  have noWrap : terminal.wrapPending = false := by
    rw [← Bool.not_eq_true]
    intro pending
    have := wraps pending
    omega
  have fed : terminal.feed c = terminal.put c := by
    simp only [Terminal.feed, if_neg notEscape, state,
      if_pos character, Terminal.print, noWrap, Bool.false_eq_true,
      if_false]
  have covered :
      Function.update terminal.cells (terminal.row, terminal.column) c =
        (sheet.place c).laidOver below := by
    rw [Sheet.place_laidOver, cells, row, here]
  rw [fed, Terminal.put, covered]
  split
  · next inside =>
      exact {
        cells := rfl
        row := row
        column := by
          change terminal.column + 1 = min (sheet.column + 1) (width - 1)
          omega
        wraps := fun pending => absurd pending (by simp [noWrap])
        state := state
      }
  · next margin =>
      exact {
        cells := rfl
        row := row
        column := by
          change terminal.column = min (sheet.column + 1) (width - 1)
          omega
        wraps := fun _ => by
          change width ≤ sheet.column + 1
          omega
        state := state
      }

/-- So is a text. -/
theorem write
    {text : List UInt8}
    (stands : StandsFor terminal sheet below)
    (characters : ∀ c ∈ text, Terminal.IsCharacter c)
    (fits : sheet.column + text.length ≤ width) :
    StandsFor (terminal.display text) (sheet.write text) below := by
  induction text generalizing terminal sheet with
  | nil =>
      exact stands
  | cons c rest inductionHypothesis =>
      obtain ⟨first, restCharacters⟩ := List.forall_mem_cons.mp characters
      rw [List.length_cons] at fits
      refine inductionHypothesis (stands.place first (by omega))
        restCharacters ?_
      change sheet.column + 1 + rest.length ≤ width
      omega

/-- A movement to a row of the screen is one on the sheet. -/
theorem moveTo
    (stands : StandsFor terminal sheet below)
    {row : Nat}
    (column : Nat)
    (rowInside : row < height) :
    StandsFor (terminal.withCursor row column) (sheet.moveTo row column)
      below where
  cells := stands.cells
  row := Nat.min_eq_left (Nat.le_sub_one_of_lt rowInside)
  column := rfl
  wraps := fun pending => absurd pending Bool.false_ne_true
  state := rfl

/-- With its cursor home a terminal stands for an empty sheet. -/
theorem home (terminal : Terminal height width) :
    StandsFor (terminal.withCursor 0 0) .empty terminal.cells where
  cells := rfl
  row := Nat.zero_min _
  column := rfl
  wraps := fun pending => absurd pending Bool.false_ne_true
  state := rfl

end StandsFor

end Foundation
