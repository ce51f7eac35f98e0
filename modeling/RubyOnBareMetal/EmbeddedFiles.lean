import Mathlib.Data.List.Basic

namespace RubyOnBareMetal

/-!
# Embedded files

The tables of `kernel/embedded_files.c`.  Both are generated by the build, so
they are parameters here.  A C string is the list of its bytes before the
terminating zero, a table the list of its entries before the null path.
-/

/-- The bytes of a C string before its terminating zero. -/
abbrev CString := List UInt8

/--
`struct embedded_file`.  The generator records `sizeof(array) - 1`, the number
of bytes before the zero it appends.
-/
structure EmbeddedFile where
  path : CString
  data : List UInt8
  size : UInt64
  sizeExact : size.toNat = data.length

/-- `generated_files` and `mui_files`. -/
structure EmbeddedTables where
  generatedFiles : List EmbeddedFile
  muiFiles : List EmbeddedFile

/-- `streq`: the byte after the last one of a list is the terminator. -/
def streq : CString → CString → Bool
  | a :: as, b :: bs =>
      if a ≠ 0 ∧ b ≠ 0 ∧ a = b then
        streq as bs
      else
        a = 0 ∧ b = 0
  | as, bs =>
      as.headD 0 = 0 ∧ bs.headD 0 = 0

/-- `ruby_on_bare_metal_file_exists`. -/
def rubyOnBareMetalFileExists
    (tables : EmbeddedTables)
    (path : Option CString) :
    Bool :=
  match path with
  | none => false
  | some path =>
      if tables.generatedFiles.any fun file => streq path file.path then
        true
      else
        tables.muiFiles.any fun file => streq path file.path

/--
`ruby_on_bare_metal_embedded_file_data`: the first entry of the first table
with the path, then of the second.
-/
def rubyOnBareMetalEmbeddedFileData
    (tables : EmbeddedTables)
    (path : Option CString) :
    Option EmbeddedFile :=
  match path with
  | none => none
  | some path =>
      match tables.generatedFiles.find? fun file => streq path file.path with
      | some file => some file
      | none => tables.muiFiles.find? fun file => streq path file.path

/-! ## The entry that a path names -/

/-- The characters of a string, up to its first zero. -/
def CString.text (string : CString) : List UInt8 :=
  string.takeWhile (· ≠ 0)

/-- The first entry of both tables whose path is the same string. -/
def firstMatch
    (tables : EmbeddedTables)
    (path : Option CString) :
    Option EmbeddedFile :=
  path.bind fun path =>
    (tables.generatedFiles ++ tables.muiFiles).find? fun file =>
      CString.text file.path = CString.text path

@[simp] theorem CString.text_nil : CString.text [] = [] :=
  rfl

@[simp] theorem CString.text_cons_eq_nil
    {byte : UInt8}
    {rest : List UInt8} :
    CString.text (byte :: rest) = [] ↔ byte = 0 := by
  simp [CString.text, List.takeWhile_cons]

/-- `streq` compares strings. -/
theorem streq_iff (first second : CString) :
    streq first second = true ↔
      CString.text first = CString.text second := by
  fun_induction streq first second with
  | case1 a as b bs same inductionHypothesis =>
      obtain ⟨aNonzero, -, rfl⟩ := same
      simpa [CString.text, aNonzero] using inductionHypothesis
  | case2 a as b bs different =>
      by_cases aZero : a = 0
      · by_cases bZero : b = 0
        · simp [CString.text, aZero, bZero]
        · simp [CString.text, aZero, bZero]
      · by_cases bZero : b = 0
        · simp [CString.text, aZero, bZero]
        · have unequal : a ≠ b := fun same =>
            different ⟨aZero, bZero, same⟩
          simp [CString.text, aZero, bZero, unequal]
  | case3 first second oneEnds =>
      cases first with
      | nil =>
          cases second with
          | nil => simp
          | cons b bs => simp [eq_comm (a := [])]
      | cons a as =>
          cases second with
          | nil => simp
          | cons b bs => exact absurd rfl (oneEnds a as b bs rfl)

theorem streq_eq_decide (path other : CString) :
    streq path other =
      decide (CString.text other = CString.text path) := by
  rw [Bool.eq_iff_iff, streq_iff, decide_eq_true_iff, eq_comm]

/-- Both loops stop at the first match. -/
theorem rubyOnBareMetalEmbeddedFileData_eq
    (tables : EmbeddedTables)
    (path : Option CString) :
    rubyOnBareMetalEmbeddedFileData tables path =
      firstMatch tables path := by
  cases path with
  | none =>
      rfl
  | some path =>
      simp only [rubyOnBareMetalEmbeddedFileData, firstMatch,
        streq_eq_decide, Option.bind_some, List.find?_append]
      cases tables.generatedFiles.find? fun file =>
          CString.text file.path = CString.text path with
      | none => rfl
      | some file => rfl

/-- A file exists if there is a first match. -/
theorem rubyOnBareMetalFileExists_eq
    (tables : EmbeddedTables)
    (path : Option CString) :
    rubyOnBareMetalFileExists tables path =
      (firstMatch tables path).isSome := by
  cases path with
  | none =>
      rfl
  | some path =>
      rw [Bool.eq_iff_iff]
      simp [rubyOnBareMetalFileExists, firstMatch, streq_eq_decide]

end RubyOnBareMetal
