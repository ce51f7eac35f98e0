import RubyOnBareMetal.Foundation.LineEndings
import RubyOnBareMetal.Foundation.Terminal

namespace Foundation

/-!
# Lines on a terminal

A carriage return moves the cursor of a terminal to the first column, and a
line feed to the next row, at the bottom with the screen scrolled up.  Rows of
characters, each with its line end, are what the terminal shows below its
cursor.
-/

namespace Terminal

variable {height width : Nat}

/-- What a carriage return does. -/
def carriageReturn (terminal : Terminal height width) :
    Terminal height width :=
  { terminal with column := 0, wrapPending := false }

/-- What a line feed does. -/
def lineFeed (terminal : Terminal height width) :
    Terminal height width :=
  { terminal.nextLine with column := terminal.column }

/-- What a byte does, line ends included. -/
def receive (terminal : Terminal height width) (c : UInt8) :
    Terminal height width :=
  match terminal.state with
  | .ground =>
      if c = 0x0D then
        terminal.carriageReturn
      else if c = 0x0A then
        terminal.lineFeed
      else
        terminal.feed c
  | _ => terminal.feed c

/-- What bytes do, one after the other. -/
def view (terminal : Terminal height width) (bytes : List UInt8) :
    Terminal height width :=
  bytes.foldl receive terminal

/-- Bytes can be received in parts. -/
theorem view_append
    (terminal : Terminal height width)
    (first second : List UInt8) :
    terminal.view (first ++ second) =
      (terminal.view first).view second :=
  List.foldl_append

/-- A byte that ends no line is displayed. -/
theorem receive_eq_feed
    (terminal : Terminal height width)
    {c : UInt8}
    (noEnd : c ≠ 0x0D ∧ c ≠ 0x0A) :
    terminal.receive c = terminal.feed c := by
  unfold receive
  split
  · rw [if_neg noEnd.1, if_neg noEnd.2]
  · rfl

/-- So are bytes. -/
theorem view_eq_display
    {bytes : List UInt8}
    (noEnds : ∀ c ∈ bytes, c ≠ 0x0D ∧ c ≠ 0x0A)
    (terminal : Terminal height width) :
    terminal.view bytes = terminal.display bytes := by
  induction bytes generalizing terminal with
  | nil =>
      rfl
  | cons c rest inductionHypothesis =>
      obtain ⟨first, others⟩ := List.forall_mem_cons.mp noEnds
      rw [display_cons, ← receive_eq_feed terminal first,
        ← inductionHypothesis others]
      rfl

/-- A character ends no line. -/
theorem character_noEnd
    {c : UInt8}
    (character : IsCharacter c) :
    c ≠ 0x0D ∧ c ≠ 0x0A := by
  constructor
  · rintro rfl
    exact absurd character (by decide)
  · rintro rfl
    exact absurd character (by decide)

/-- A line end moves the cursor to the beginning of the next row. -/
theorem view_lineEnd
    {terminal : Terminal height width}
    (ground : terminal.state = .ground) :
    terminal.view [0x0D, 0x0A] = terminal.nextLine := by
  have returned : terminal.receive 0x0D = terminal.carriageReturn := by
    rw [receive, ground]
    rfl
  have fed :
      terminal.carriageReturn.receive 0x0A =
        terminal.carriageReturn.lineFeed := by
    rw [receive]
    change (match terminal.state with | .ground => _ | _ => _) = _
    rw [ground]
    rfl
  change (terminal.receive 0x0D).receive 0x0A = terminal.nextLine
  rw [returned, fed]
  unfold lineFeed carriageReturn nextLine
  dsimp only
  split <;> rfl

end Terminal

/-! ## Rows -/

namespace Sheet

/-- What is placed when a row is written. -/
theorem placed_write
    (sheet : Sheet)
    (text : List UInt8)
    (row column : Nat) :
    (sheet.write text).placed (row, column) =
      if row = sheet.row ∧ sheet.column ≤ column ∧
          column < sheet.column + text.length then
        text[column - sheet.column]?
      else
        sheet.placed (row, column) := by
  induction text generalizing sheet with
  | nil =>
      rw [if_neg (by
        rintro ⟨-, least, most⟩
        exact absurd least (Nat.not_le.mpr most))]
      rfl
  | cons c rest inductionHypothesis =>
      have later :
          (sheet.write (c :: rest)).placed (row, column) =
            if row = sheet.row ∧ sheet.column + 1 ≤ column ∧
                column < sheet.column + 1 + rest.length then
              rest[column - (sheet.column + 1)]?
            else
              Function.update sheet.placed (sheet.row, sheet.column)
                (some c) (row, column) :=
        inductionHypothesis (sheet.place c)
      rw [later, List.length_cons]
      by_cases here : row = sheet.row ∧ column = sheet.column
      · obtain ⟨rfl, rfl⟩ := here
        rw [if_neg (by omega), if_pos (by omega), Function.update_self,
          Nat.sub_self, List.getElem?_cons_zero]
      · by_cases behind :
            row = sheet.row ∧ sheet.column + 1 ≤ column ∧
              column < sheet.column + 1 + rest.length
        · have shift :
              column - sheet.column = column - (sheet.column + 1) + 1 := by
            omega
          rw [if_pos behind, if_pos (by omega), shift,
            List.getElem?_cons_succ]
        · have elsewhere :
              (row, column) ≠ (sheet.row, sheet.column) := fun same =>
            here (Prod.mk.inj same)
          rw [if_neg behind, if_neg (by omega),
            Function.update_of_ne elsewhere]

/-- Rows that are written one below the other. -/
def writeRows (sheet : Sheet) (rows : List (List UInt8)) : Sheet :=
  rows.foldl
    (fun sheet row => (sheet.write row).moveTo (sheet.row + 1) 0) sheet

/-- The cursor behind rows. -/
theorem writeRows_cursor
    {sheet : Sheet}
    (atStart : sheet.column = 0)
    (rows : List (List UInt8)) :
    (sheet.writeRows rows).row = sheet.row + rows.length ∧
      (sheet.writeRows rows).column = 0 := by
  induction rows generalizing sheet with
  | nil =>
      exact ⟨rfl, atStart⟩
  | cons first rest inductionHypothesis =>
      obtain ⟨row, column⟩ :=
        @inductionHypothesis ((sheet.write first).moveTo (sheet.row + 1) 0)
          rfl
      refine ⟨row.trans ?_, column⟩
      change sheet.row + 1 + rest.length = _
      rw [List.length_cons]
      omega

/-- What is placed when rows are written on an empty sheet. -/
theorem placed_writeRows
    {sheet : Sheet}
    (atStart : sheet.column = 0)
    (rows : List (List UInt8))
    (row column : Nat) :
    (sheet.writeRows rows).placed (row, column) =
      if sheet.row ≤ row then
        ((rows[row - sheet.row]?).bind (·[column]?)).or
          (sheet.placed (row, column))
      else
        sheet.placed (row, column) := by
  induction rows generalizing sheet with
  | nil =>
      change sheet.placed (row, column) = _
      simp
  | cons first rest inductionHypothesis =>
      have later :
          (sheet.writeRows (first :: rest)).placed (row, column) =
            if sheet.row + 1 ≤ row then
              ((rest[row - (sheet.row + 1)]?).bind (·[column]?)).or
                ((sheet.write first).placed (row, column))
            else
              (sheet.write first).placed (row, column) :=
        @inductionHypothesis ((sheet.write first).moveTo (sheet.row + 1) 0)
          rfl
      have firstPlaced :
          (sheet.write first).placed (row, column) =
            if row = sheet.row ∧ column < first.length then
              first[column]?
            else
              sheet.placed (row, column) := by
        rw [placed_write, atStart]
        simp only [Nat.zero_le, true_and, Nat.zero_add, Nat.sub_zero]
      rw [later, firstPlaced]
      rcases Nat.lt_trichotomy row sheet.row with above | same | below
      · rw [if_neg (by omega), if_neg (by omega), if_neg (by omega)]
      · subst same
        rw [if_neg (by omega), if_pos (Nat.le_refl _), Nat.sub_self,
          List.getElem?_cons_zero]
        by_cases inside : column < first.length
        · rw [if_pos ⟨rfl, inside⟩, Option.bind_some,
            List.getElem?_eq_getElem inside]
          rfl
        · rw [if_neg fun both => inside both.2, Option.bind_some,
            List.getElem?_eq_none (Nat.le_of_not_lt inside)]
          rfl
      · have shift : row - sheet.row = row - (sheet.row + 1) + 1 := by
          omega
        have otherRow : ¬(row = sheet.row ∧ column < first.length) := by
          omega
        rw [if_neg otherRow, if_pos (by omega), if_pos (by omega), shift,
          List.getElem?_cons_succ]

end Sheet

/-- The bytes of rows, each with its line end. -/
def rowBytes (rows : List (List UInt8)) : List UInt8 :=
  rows.flatMap (· ++ [0x0D, 0x0A])

namespace StandsFor

variable {height width : Nat}
variable {terminal : Terminal height width}
variable {sheet : Sheet}
variable {below : Nat × Nat → UInt8}

/-- Characters are placed. -/
theorem view
    {text : List UInt8}
    (stands : StandsFor terminal sheet below)
    (characters : ∀ c ∈ text, Terminal.IsCharacter c)
    (fits : sheet.column + text.length ≤ width) :
    StandsFor (terminal.view text) (sheet.write text) below := by
  rw [Terminal.view_eq_display fun c member =>
    Terminal.character_noEnd (characters c member)]
  exact stands.write characters fits

/-- A line end that does not scroll. -/
theorem lineEnd
    (stands : StandsFor terminal sheet below)
    (inside : sheet.row + 1 < height) :
    StandsFor (terminal.view [0x0D, 0x0A])
      (sheet.moveTo (sheet.row + 1) 0) below := by
  have row := stands.row
  rw [Terminal.view_lineEnd stands.state, Terminal.nextLine,
    if_pos (by omega)]
  exact {
    cells := stands.cells
    row := congrArg (· + 1) row
    column := (Nat.zero_min _).symm
    wraps := fun pending => absurd pending Bool.false_ne_true
    state := stands.state
  }

/-- Rows that do not scroll. -/
theorem rows
    {rows : List (List UInt8)}
    (stands : StandsFor terminal sheet below)
    (atStart : sheet.column = 0)
    (characters : ∀ row ∈ rows, ∀ c ∈ row, Terminal.IsCharacter c)
    (narrow : ∀ row ∈ rows, row.length ≤ width)
    (short : sheet.row + rows.length < height) :
    StandsFor (terminal.view (rowBytes rows)) (sheet.writeRows rows)
      below := by
  induction rows generalizing terminal sheet with
  | nil =>
      exact stands
  | cons first rest inductionHypothesis =>
      obtain ⟨firstCharacters, restCharacters⟩ :=
        List.forall_mem_cons.mp characters
      obtain ⟨firstNarrow, restNarrow⟩ := List.forall_mem_cons.mp narrow
      rw [List.length_cons] at short
      have written := stands.view firstCharacters (by
        rw [atStart, Nat.zero_add]
        exact firstNarrow)
      have sameRow := (sheet.write_cursor first).1
      have ended := written.lineEnd (by omega)
      rw [sameRow] at ended
      rw [rowBytes, List.flatMap_cons, Terminal.view_append,
        Terminal.view_append]
      refine inductionHypothesis ended rfl restCharacters restNarrow ?_
      change sheet.row + 1 + rest.length < height
      omega

end StandsFor

end Foundation
