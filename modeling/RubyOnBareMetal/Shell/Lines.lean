import RubyOnBareMetal.Shell.Vfs

namespace RubyOnBareMetal.Shell

open Foundation

/-!
# The lines of a file in `ruby/scripts/init.rb`

`File.read` and `File.readlines` look at `VFS` first and fall back to the
methods they override.  The lines of a stored file are the fields between its
newlines, each with a newline put behind it.
-/

/-- The byte of `"\n"`. -/
abbrev newline : UInt8 := 0x0A

/-- `VFS.read`. -/
def Vfs.read (vfs : Vfs) (path : Path) : Option (List UInt8) :=
  Ruby.Hash.value? vfs path

/-- `original_read` and `original_readlines`; `none` is an error. -/
structure OriginalFile where
  read : Path → Option (List UInt8)
  readlines : Path → Option (List (List UInt8))

/-- `File.read`. -/
def fileRead
    (original : OriginalFile)
    (vfs : Vfs)
    (path : Path) :
    Option (List UInt8) :=
  match vfs.read path with
  | some data => some data
  | none => original.read path

/-- `data.split("\n").map { |l| l + "\n" }`. -/
def dataLines (data : List UInt8) : List (List UInt8) :=
  (Ruby.split newline data).map (· ++ [newline])

/-- `File.readlines`. -/
def fileReadlines
    (original : OriginalFile)
    (vfs : Vfs)
    (path : Path) :
    Option (List (List UInt8)) :=
  match vfs.read path with
  | some data => some (dataLines data)
  | none => original.readlines path

/-! ## What lines are for -/

/-- The lines of a text, all but the last one ended by their only newline. -/
structure LinesOf
    (lines : List (List UInt8))
    (data : List UInt8) : Prop where
  joined : lines.flatten = data
  terminated :
    ∀ line ∈ lines.dropLast,
      ∃ text, newline ∉ text ∧ line = text ++ [newline]

/-- `File.readlines` cuts what `File.read` returns into lines. -/
def ReadsLines
    (original : OriginalFile)
    (vfs : Vfs)
    (path : Path) : Prop :=
  ∃ lines data,
    fileReadlines original vfs path = some lines ∧
      fileRead original vfs path = some data ∧
      LinesOf lines data

/-- A text ends in exactly one newline, behind another character. -/
def EndsInOneNewline (data : List UInt8) : Prop :=
  ∃ text last, last ≠ newline ∧ data = text ++ [last, newline]

/-! ## The lines of a stored file -/

/-- Every line is a field and its newline. -/
theorem dataLines_terminated
    {data line : List UInt8}
    (isLine : line ∈ dataLines data) :
    ∃ text, newline ∉ text ∧ line = text ++ [newline] := by
  obtain ⟨text, isField, rfl⟩ := List.mem_map.mp isLine
  exact ⟨text, Ruby.not_mem_of_mem_split isField, rfl⟩

/-- The lines of a text and of the newlines behind it. -/
theorem flatten_dataLines
    {last : UInt8}
    (text : List UInt8)
    (count : Nat)
    (notNewline : last ≠ newline) :
    (dataLines
        (text ++ [last] ++ List.replicate count newline)).flatten =
      text ++ [last] ++ [newline] := by
  have fields :
      Ruby.split newline
          (text ++ [last] ++ List.replicate count newline) =
        (text ++ [last]).splitOn newline := by
    rw [Ruby.split_append_separators, Ruby.split_concat text notNewline]
  rw [dataLines, fields,
    Ruby.flatten_terminated (List.splitOn_ne_nil newline _),
    Ruby.join_splitOn]

/-- The lines add up to the text if it ends in one newline or is empty. -/
theorem flatten_dataLines_iff (data : List UInt8) :
    (dataLines data).flatten = data ↔ data = [] ∨ EndsInOneNewline data := by
  constructor
  · intro joined
    obtain ⟨core, count, rfl, ends⟩ :=
      Ruby.exists_append_separators newline data
    rcases ends with rfl | ⟨text, last, notNewline, rfl⟩
    · left
      rw [← joined, dataLines, Ruby.split_append_separators]
      rfl
    · right
      rw [flatten_dataLines text count notNewline] at joined
      refine ⟨text, last, notNewline, ?_⟩
      rw [← joined, List.append_assoc]
      rfl
  · rintro (rfl | ⟨text, last, notNewline, rfl⟩)
    · rfl
    · have joined := flatten_dataLines text 1 notNewline
      rw [List.append_assoc, List.append_assoc] at joined
      exact joined

/--
For every stored string: `File.readlines` cuts what `File.read` returns into
lines if and only if the string is empty or ends in exactly one newline behind
another character.
-/
theorem reads_lines_iff
    (original : OriginalFile)
    (vfs : Vfs)
    {path : Path}
    {data : List UInt8}
    (stored : vfs.read path = some data) :
    ReadsLines original vfs path ↔ data = [] ∨ EndsInOneNewline data := by
  have read : fileRead original vfs path = some data := by
    rw [fileRead, stored]
  have lines : fileReadlines original vfs path = some (dataLines data) := by
    rw [fileReadlines, stored]
  rw [← flatten_dataLines_iff]
  constructor
  · rintro ⟨found, text, foundLines, foundText, linesOf⟩
    obtain rfl := Option.some.inj (lines.symm.trans foundLines)
    obtain rfl := Option.some.inj (read.symm.trans foundText)
    exact linesOf.joined
  · intro joined
    refine ⟨dataLines data, data, lines, read, joined, ?_⟩
    intro line member
    exact dataLines_terminated (List.dropLast_subset _ member)

/-- No methods to fall back to. -/
def OriginalFile.missing : OriginalFile where
  read _ := none
  readlines _ := none

/-- A file of two lines, `a` and `b`, stored as `/f`. -/
theorem reads_lines_iff_two_lines :
    ReadsLines .missing
        [([0x2F, 0x66], [0x61, 0x0A, 0x62, 0x0A])] [0x2F, 0x66] ↔
      ([0x61, 0x0A, 0x62, 0x0A] : List UInt8) = [] ∨
        EndsInOneNewline [0x61, 0x0A, 0x62, 0x0A] :=
  reads_lines_iff .missing [([0x2F, 0x66], [0x61, 0x0A, 0x62, 0x0A])] rfl

/-- The empty line at the end of a file is lost. -/
theorem empty_line_lost :
    ¬ReadsLines .missing
      (Vfs.write [] [0x2F, 0x66] [0x61, 0x0A, 0x0A]) [0x2F, 0x66] := by
  rintro ⟨lines, data, foundLines, foundData, linesOf⟩
  cases foundLines
  cases foundData
  exact absurd linesOf.joined (by decide +kernel)

end RubyOnBareMetal.Shell
