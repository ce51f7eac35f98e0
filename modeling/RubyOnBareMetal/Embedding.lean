import RubyOnBareMetal.Foundation.Bytes
import RubyOnBareMetal.Foundation.CArray
import RubyOnBareMetal.Foundation.Ruby

namespace RubyOnBareMetal.Embedding

open Foundation CArray

/-!
# Embedding files

`tools/embed_scripts.rb` and `tools/embed_mui.rb` write the content of each
file as an array definition in C, in lines of sixteen bytes, with a zero at
the end.  A file without content makes a line with a comma only.
-/

/-- `sprintf("0x%02x", b)`. -/
def byteText (b : UInt8) : List Char := [
  '0',
  'x',
  Nat.digitChar (b.toNat / 16),
  Nat.digitChar (b.toNat % 16)
]

/-- `", "` between the bytes of a line. -/
def byteSeparator : List Char := [',', ' ']

/-- `",\n  "` between lines. -/
def lineSeparator : List Char := [',', '\n', ' ', ' ']

/-- The `bytes` of both tools. -/
def bytesText (content : List UInt8) : List Char :=
  lineSeparator.intercalate
    ((Ruby.eachSlice 16 content).map fun line =>
      byteSeparator.intercalate (line.map byteText))

/-- `static const char` before the name. -/
def declarationText : List Char :=
  staticKeyword ++ ' ' :: constKeyword ++ ' ' :: charKeyword ++ [' ']

/-- The brackets, the equals sign and the opening brace behind the name. -/
def openText : List Char := ['[', ']', ' ', '=', ' ', openBrace, '\n']

/-- What comes before and behind the bytes on their lines. -/
def indentText : List Char := [' ', ' ']
def commaText : List Char := [',', '\n']

/-- The line of the terminator. -/
def terminatorText : List Char := [' ', ' ', '0', 'x', '0', '0', '\n']

/-- The closing brace, the semicolon and an empty line. -/
def closeText : List Char := [closeBrace, ';', '\n', '\n']

/-- The definition that both tools write. -/
def arrayText (cName : List Char) (content : List UInt8) : List Char :=
  declarationText ++ cName ++ openText ++
    (indentText ++ bytesText content ++ commaText) ++
    terminatorText ++ closeText

/-- The name of a script without its extension, as part of an identifier. -/
abbrev ScriptName := { name : List Char // ∀ c ∈ name, isWordChar c = true }

/-- The `c_name` of a script. -/
def scriptName (name : ScriptName) : List Char :=
  ['s', 'c', 'r', 'i', 'p', 't', '_'] ++ name.val

/-- The `c_name` of a file of the editor. -/
def muiName (idx : Nat) : List Char :=
  ['m', 'u', 'i', '_', 'f', 'i', 'l', 'e', '_'] ++ Nat.toDigits 10 idx

/-- The definition of `embed_scripts.rb`. -/
def embedScript (name : ScriptName) (content : List UInt8) : List Char :=
  arrayText (scriptName name) content

/-- The definition of `embed_mui.rb`, for a content after its substitution. -/
def embedMui (idx : Nat) (content : List UInt8) : List Char :=
  arrayText (muiName idx) content

/-- The file table records `sizeof(c_name) - 1`. -/
def recordedSize (values : List Nat) : Nat :=
  values.length - 1

/-- The definition is valid and is read as the content and one zero. -/
def EmbedsExactly
    (text cName : List Char)
    (content : List UInt8) :
    Prop :=
  (∃ values, Reads text cName values) ∧
    ∀ values,
      Reads text cName values →
      values = content.map UInt8.toNat ++ [0] ∧
        recordedSize values = content.length

/-! ## The tokens of a definition -/

/-- A byte is written as one constant. -/
theorem lexesWord_byteText (b : UInt8) :
    LexesWord (byteText b) [.constant b.toNat] := by
  have each :
      ∀ value < 256,
        (byteText (UInt8.ofNat value)).all isWordChar = true ∧
          wordToken? (byteText (UInt8.ofNat value)) =
            some (.constant (UInt8.ofNat value).toNat) := by
    decide +kernel
  obtain ⟨wordChars, isToken⟩ :=
    @forall_byte
      (fun b =>
        (byteText b).all isWordChar = true ∧
          wordToken? (byteText b) = some (.constant b.toNat))
      each b
  exact lexesWord (List.all_eq_true.mp wordChars) isToken

/-- Three keywords come before the name. -/
theorem lexes_declaration :
    Lexes declarationText
      [.word staticKeyword, .word constKeyword, .word charKeyword] := by
  intro rest
  have cut :
      lex (declarationText ++ rest) =
        flush staticKeyword
          (flush constKeyword (flush charKeyword (lex rest))) :=
    rfl
  rw [cut, @flush_word staticKeyword (.word staticKeyword) rfl,
    @flush_word constKeyword (.word constKeyword) rfl,
    @flush_word charKeyword (.word charKeyword) rfl]
  cases lex rest with
  | none => rfl
  | some tokens => rfl

/-- The punctuators up to the opening brace come behind the name. -/
theorem lexes_open :
    Lexes openText
      [
        .punctuator '[',
        .punctuator ']',
        .punctuator '=',
        .punctuator openBrace
      ] := by
  intro rest
  have cut :
      lex (openText ++ rest) =
        ((((lex rest).map (.punctuator openBrace :: ·)).map
          (.punctuator '=' :: ·)).map (.punctuator ']' :: ·)).map
            (.punctuator '[' :: ·) :=
    rfl
  rw [cut]
  cases lex rest with
  | none => rfl
  | some tokens => rfl

/-- Blanks make no token. -/
theorem lexes_indent :
    Lexes indentText [] := by
  intro rest
  have cut : lex (indentText ++ rest) = lex rest :=
    rfl
  rw [cut]
  cases lex rest with
  | none => rfl
  | some tokens => rfl

/-- The separator of bytes is a comma, that of lines is one too. -/
theorem lexes_byteSeparator :
    Lexes byteSeparator [.punctuator ','] :=
  fun _ => rfl

theorem lexes_lineSeparator :
    Lexes lineSeparator [.punctuator ','] :=
  fun _ => rfl

theorem lexes_comma :
    Lexes commaText [.punctuator ','] :=
  fun _ => rfl

/-- The terminator is one constant. -/
theorem lexes_terminator :
    Lexes terminatorText [.constant 0] := by
  intro rest
  have cut :
      lex (terminatorText ++ rest) = flush ['0', 'x', '0', '0'] (lex rest) :=
    rfl
  rw [cut, @flush_word ['0', 'x', '0', '0'] (.constant 0) rfl]
  rfl

/-- The closing brace and the semicolon end the definition. -/
theorem lexes_close :
    Lexes closeText footer := by
  intro rest
  have cut :
      lex (closeText ++ rest) =
        ((lex rest).map (.punctuator ';' :: ·)).map
          (.punctuator closeBrace :: ·) :=
    rfl
  rw [cut]
  cases lex rest with
  | none => rfl
  | some tokens => rfl

/-- The tokens of bytes: constants with commas between them. -/
def byteTokens (content : List UInt8) : List Token :=
  [Token.punctuator ','].intercalate
    (content.map fun b => [Token.constant b.toNat])

/-- The lines of bytes are cut into the tokens of the bytes. -/
theorem lexesWord_bytesText (content : List UInt8) :
    LexesWord (bytesText content) (byteTokens content) := by
  have lexesLines :
      LexesWord (bytesText content)
        ([Token.punctuator ','].intercalate
          ((Ruby.eachSlice 16 content).map fun line =>
            [Token.punctuator ','].intercalate
              (line.map fun b => [Token.constant b.toNat]))) :=
    lexesWord_intercalate rfl rfl lexes_lineSeparator fun line _ =>
      lexesWord_intercalate rfl rfl lexes_byteSeparator fun b _ =>
        lexesWord_byteText b
  have nonempty :
      ∀ line ∈ (Ruby.eachSlice 16 content).map
          fun line => line.map fun b => [Token.constant b.toNat],
        line ≠ [] := by
    rw [List.forall_mem_map]
    intro line member empty
    exact Ruby.slice_ne_nil 16 [] content line member
      (List.map_eq_nil_iff.mp empty)
  have together :=
    Ruby.intercalate_map_intercalate [Token.punctuator ','] nonempty
  rw [List.map_map, ← List.map_flatten, Ruby.eachSlice,
    Ruby.flatten_slicesFrom, List.nil_append] at together
  rw [byteTokens, ← together]
  exact lexesLines

/-- The whole definition. -/
theorem lex_arrayText
    {cName : List Char}
    (wordChars : ∀ c ∈ cName, isWordChar c = true)
    (isName : wordToken? cName = some (.word cName))
    (content : List UInt8) :
    lex (arrayText cName content) =
      some
        (header cName ++
          (byteTokens content ++
            .punctuator ',' :: .constant 0 :: footer)) := by
  have named := lexes_declaration.append_word (lexesWord wordChars isName)
  have opened := named.append rfl rfl lexes_open
  have line :=
    (lexes_indent.append_word (lexesWord_bytesText content)).append rfl rfl
      lexes_comma
  have whole :=
    ((opened.append line).append lexes_terminator).append lexes_close []
  have nothing : lex [] = some [] :=
    rfl
  rw [List.append_nil, nothing, Option.map_some, List.append_nil] at whole
  rw [arrayText, whole]
  simp only [header, List.append_assoc, List.cons_append, List.nil_append]

/-- A content that is not empty is read with its terminator. -/
theorem reads_arrayText
    {cName : List Char}
    (wordChars : ∀ c ∈ cName, isWordChar c = true)
    (isName : wordToken? cName = some (.word cName))
    {content : List UInt8}
    (nonempty : content ≠ []) :
    Reads (arrayText cName content) cName
      (content.map UInt8.toNat ++ [0]) := by
  have initialisers :
      Initialisers (byteTokens content) (content.map UInt8.toNat) := by
    have someValue : content.map UInt8.toNat ≠ [] :=
      fun empty => nonempty (List.map_eq_nil_iff.mp empty)
    have constants := initialisers_intercalate someValue
    rw [List.map_map] at constants
    exact constants
  refine ⟨_, lex_arrayText wordChars isName content, ?_⟩
  have definition := @Definition.plain cName _ _ (initialisers.next 0)
  rw [List.append_assoc] at definition
  exact definition

/-- Without content there is a comma where a constant should be. -/
theorem not_reads_arrayText_nil
    {cName : List Char}
    (wordChars : ∀ c ∈ cName, isWordChar c = true)
    (isName : wordToken? cName = some (.word cName))
    (values : List Nat) :
    ¬ Reads (arrayText cName []) cName values := by
  rintro ⟨tokens, lexed, definition⟩
  rw [lex_arrayText wordChars isName, Option.some_inj] at lexed
  rw [← lexed] at definition
  obtain ⟨value, rest, starts⟩ := definition.exists_head
  cases starts

/-- Both tools embed exactly what is not empty. -/
theorem embedsExactly_arrayText_iff
    {cName : List Char}
    (wordChars : ∀ c ∈ cName, isWordChar c = true)
    (isName : wordToken? cName = some (.word cName))
    (content : List UInt8) :
    EmbedsExactly (arrayText cName content) cName content ↔
      content ≠ [] := by
  constructor
  · rintro ⟨⟨values, reads⟩, _⟩ rfl
    exact not_reads_arrayText_nil wordChars isName values reads
  · intro nonempty
    have reads := reads_arrayText wordChars isName nonempty
    refine ⟨⟨_, reads⟩, fun values readsValues => ?_⟩
    rw [readsValues.unique reads]
    exact ⟨rfl, by simp [recordedSize]⟩

/-! ## The names -/

/-- A word that starts with a letter is a word. -/
theorem wordToken?_of_head
    {start : Char}
    {rest : List Char}
    (notZero : start ≠ '0')
    (notDigit : start.isDigit = false) :
    wordToken? (start :: rest) = some (.word (start :: rest)) := by
  rw [wordToken?.eq_3 start rest, if_neg]
  · rw [notDigit]
    exact Bool.false_ne_true
  · rintro digit digits rfl
    exact absurd rfl notZero

/-- The name of a script is an identifier. -/
theorem scriptName_wordChars (name : ScriptName) :
    ∀ c ∈ scriptName name, isWordChar c = true := by
  rw [scriptName, List.forall_mem_append]
  exact ⟨List.all_eq_true.mp rfl, name.property⟩

/-- The name of a file of the editor is an identifier. -/
theorem muiName_wordChars (idx : Nat) :
    ∀ c ∈ muiName idx, isWordChar c = true := by
  rw [muiName, List.forall_mem_append]
  refine ⟨List.all_eq_true.mp rfl, fun c member => ?_⟩
  have digit := Nat.isDigit_of_mem_toDigits (by decide) (by decide) member
  rw [isWordChar, Char.isAlphanum, digit, Bool.or_true, Bool.true_or]

/-- The name of a script is a word. -/
theorem scriptName_word (name : ScriptName) :
    wordToken? (scriptName name) = some (.word (scriptName name)) := by
  have starts :
      scriptName name =
        's' :: (['c', 'r', 'i', 'p', 't', '_'] ++ name.val) :=
    rfl
  rw [starts]
  exact wordToken?_of_head (by decide) (by decide)

/-- The name of a file of the editor is a word. -/
theorem muiName_word (idx : Nat) :
    wordToken? (muiName idx) = some (.word (muiName idx)) := by
  have starts :
      muiName idx =
        'm' :: (['u', 'i', '_', 'f', 'i', 'l', 'e', '_'] ++
          Nat.toDigits 10 idx) :=
    rfl
  rw [starts]
  exact wordToken?_of_head (by decide) (by decide)

/-- Exactly a content with at least one byte is embedded without loss. -/
theorem embeds_exactly_iff
    (content : List UInt8) :
    (∀ name,
      EmbedsExactly (embedScript name content) (scriptName name) content ↔
        content ≠ []) ∧
    ∀ idx,
      EmbedsExactly (embedMui idx content) (muiName idx) content ↔
        content ≠ [] := by
  constructor
  · intro name
    exact embedsExactly_arrayText_iff (scriptName_wordChars name)
      (scriptName_word name) content
  · intro idx
    exact embedsExactly_arrayText_iff (muiName_wordChars idx)
      (muiName_word idx) content

/-- The script `a.rb`. -/
def scriptA : ScriptName :=
  ⟨['a'], List.all_eq_true.mp rfl⟩

/-- The definition of a script that is empty is no definition. -/
theorem empty_script_invalid :
    embedScript scriptA [] =
        declarationText ++ ['s', 'c', 'r', 'i', 'p', 't', '_', 'a'] ++
          openText ++ [' ', ' ', ',', '\n'] ++ terminatorText ++ closeText ∧
      ¬ EmbedsExactly (embedScript scriptA []) (scriptName scriptA) [] := by
  refine ⟨rfl, ?_⟩
  rintro ⟨⟨values, reads⟩, _⟩
  exact not_reads_arrayText_nil (scriptName_wordChars scriptA)
    (scriptName_word scriptA) values reads

end RubyOnBareMetal.Embedding
