import Mathlib.Data.List.Basic

namespace Foundation.CArray

/-!
# Array definitions in C

The part of C in which tables of constants are written: a text is cut into
tokens, and the tokens of a definition are a header, a list of initialisers
with commas between them and perhaps behind them, and a footer.  The only
constants are hexadecimal ones.
-/

/-- A token; a word is a keyword or an identifier. -/
inductive Token where
  | word (text : List Char)
  | constant (value : Nat)
  | punctuator (mark : Char)
  deriving Repr, DecidableEq

/-- A character of a word or of a constant. -/
def isWordChar (c : Char) : Bool :=
  c.isAlphanum || c == '_'

/-- A character between tokens. -/
def isBlank (c : Char) : Bool :=
  c == ' ' || c == '\n'

/-- The braces. -/
abbrev openBrace : Char := '\x7b'
abbrev closeBrace : Char := '\x7d'

/-- A punctuator. -/
def isMark (c : Char) : Bool :=
  c == '[' || c == ']' || c == '=' || c == ',' || c == ';' ||
    c == openBrace || c == closeBrace

/-- The value of a hexadecimal digit. -/
def hexDigitValue? (c : Char) : Option Nat :=
  if '0' ≤ c ∧ c ≤ '9' then
    some (c.toNat - 0x30)
  else if 'a' ≤ c ∧ c ≤ 'f' then
    some (c.toNat - 0x57)
  else if 'A' ≤ c ∧ c ≤ 'F' then
    some (c.toNat - 0x37)
  else
    none

/-- The value of hexadecimal digits. -/
def hexValue? (digits : List Char) : Option Nat :=
  digits.foldlM
    (fun value c => (hexDigitValue? c).map (16 * value + ·)) 0

/-- The token that word characters make. -/
def wordToken? : List Char → Option Token
  | [] => none
  | '0' :: 'x' :: digit :: digits =>
      (hexValue? (digit :: digits)).map .constant
  | c :: rest =>
      if c.isDigit then
        none
      else
        some (.word (c :: rest))

/-- The word characters read so far make a token in front of later ones. -/
def flush (pending : List Char) (later : Option (List Token)) :
    Option (List Token) :=
  if pending = [] then
    later
  else
    match wordToken? pending, later with
    | some token, some tokens => some (token :: tokens)
    | _, _ => none

/-- The tokens of a text, after some word characters. -/
def lexFrom (pending : List Char) : List Char → Option (List Token)
  | [] => flush pending (some [])
  | c :: rest =>
      if isWordChar c then
        lexFrom (pending ++ [c]) rest
      else if isBlank c then
        flush pending (lexFrom [] rest)
      else if isMark c then
        flush pending ((lexFrom [] rest).map (.punctuator c :: ·))
      else
        none

/-- The tokens of a text. -/
def lex (text : List Char) : Option (List Token) :=
  lexFrom [] text

/-! ## The grammar -/

/-- Initialisers with commas between them, and their values. -/
inductive Initialisers : List Token → List Nat → Prop where
  | first (value : Nat) :
      Initialisers [.constant value] [value]
  | next
      {tokens : List Token}
      {values : List Nat}
      (value : Nat)
      (before : Initialisers tokens values) :
      Initialisers (tokens ++ [.punctuator ',', .constant value])
        (values ++ [value])

/-- Three keywords. -/
def staticKeyword : List Char := ['s', 't', 'a', 't', 'i', 'c']
def constKeyword : List Char := ['c', 'o', 'n', 's', 't']
def charKeyword : List Char := ['c', 'h', 'a', 'r']

/-- `static const char name[] = ` and the opening brace. -/
def header (name : List Char) : List Token := [
  .word staticKeyword,
  .word constKeyword,
  .word charKeyword,
  .word name,
  .punctuator '[',
  .punctuator ']',
  .punctuator '=',
  .punctuator openBrace
]

/-- The closing brace and the semicolon. -/
def footer : List Token := [
  .punctuator closeBrace,
  .punctuator ';'
]

/-- The definition of an array of characters with its initial values. -/
inductive Definition (name : List Char) : List Token → List Nat → Prop where
  | plain
      {tokens : List Token}
      {values : List Nat}
      (initialisers : Initialisers tokens values) :
      Definition name (header name ++ (tokens ++ footer)) values
  | trailing
      {tokens : List Token}
      {values : List Nat}
      (initialisers : Initialisers tokens values) :
      Definition name
        (header name ++ (tokens ++ .punctuator ',' :: footer)) values

/-- A text is a definition with these values. -/
def Reads (text name : List Char) (values : List Nat) : Prop :=
  ∃ tokens, lex text = some tokens ∧ Definition name tokens values

/-! ## What is read -/

/-- A list of initialisers starts with a constant. -/
theorem Initialisers.exists_head
    {tokens : List Token}
    {values : List Nat}
    (initialisers : Initialisers tokens values) :
    ∃ value rest, tokens = .constant value :: rest := by
  induction initialisers with
  | first value =>
      exact ⟨value, [], rfl⟩
  | next value before inductionHypothesis =>
      obtain ⟨head, rest, rfl⟩ := inductionHypothesis
      exact ⟨head, _, List.cons_append⟩

/-- One more initialiser in front. -/
theorem Initialisers.cons
    {tokens : List Token}
    {values : List Nat}
    (initialisers : Initialisers tokens values)
    (value : Nat) :
    Initialisers (.constant value :: .punctuator ',' :: tokens)
      (value :: values) := by
  induction initialisers with
  | first last =>
      exact (Initialisers.first value).next last
  | next last before inductionHypothesis =>
      exact inductionHypothesis.next last

/-- Constants with commas between them are initialisers. -/
theorem initialisers_intercalate
    {values : List Nat}
    (nonempty : values ≠ []) :
    Initialisers
      ([Token.punctuator ','].intercalate
        (values.map fun value => [Token.constant value]))
      values := by
  induction values with
  | nil =>
      exact absurd rfl nonempty
  | cons value rest inductionHypothesis =>
      cases rest with
      | nil =>
          exact .first value
      | cons next rest =>
          have later := inductionHypothesis (List.cons_ne_nil next rest)
          rw [List.map_cons, List.map_cons, List.intercalate_cons_cons]
          exact later.cons value

/-- The value of a constant. -/
def Token.value? : Token → Option Nat
  | .constant value => some value
  | .word _ => none
  | .punctuator _ => none

/-- The values are those of the constants, in order. -/
theorem Initialisers.values_eq
    {tokens : List Token}
    {values : List Nat}
    (initialisers : Initialisers tokens values) :
    tokens.filterMap Token.value? = values := by
  induction initialisers with
  | first value =>
      rfl
  | next value before inductionHypothesis =>
      rw [List.filterMap_append, inductionHypothesis]
      rfl

/-- The values of a definition are those of its constants, in order. -/
theorem Definition.values_eq
    {name : List Char}
    {tokens : List Token}
    {values : List Nat}
    (definition : Definition name tokens values) :
    tokens.filterMap Token.value? = values := by
  cases definition with
  | plain initialisers =>
      rw [List.filterMap_append, List.filterMap_append,
        initialisers.values_eq]
      exact List.append_nil _
  | trailing initialisers =>
      rw [List.filterMap_append, List.filterMap_append,
        initialisers.values_eq]
      exact List.append_nil _

/-- A text is read in one way only. -/
theorem Reads.unique
    {text name : List Char}
    {values others : List Nat}
    (reads : Reads text name values)
    (readsOthers : Reads text name others) :
    values = others := by
  obtain ⟨tokens, lexed, definition⟩ := reads
  obtain ⟨otherTokens, lexedOthers, otherDefinition⟩ := readsOthers
  rw [lexed, Option.some_inj] at lexedOthers
  rw [← definition.values_eq, ← otherDefinition.values_eq, lexedOthers]

/-- Between the braces of a definition a constant comes first. -/
theorem Definition.exists_head
    {name : List Char}
    {tokens : List Token}
    {values : List Nat}
    (definition : Definition name (header name ++ tokens) values) :
    ∃ value rest, tokens = .constant value :: rest := by
  generalize whole : header name ++ tokens = all at definition
  cases definition with
  | plain initialisers =>
      obtain ⟨value, rest, rfl⟩ := initialisers.exists_head
      exact ⟨value, _, List.append_cancel_left whole⟩
  | trailing initialisers =>
      obtain ⟨value, rest, rfl⟩ := initialisers.exists_head
      exact ⟨value, _, List.append_cancel_left whole⟩

/-! ## Cutting a text into tokens -/

/-- A text is cut into tokens, whatever comes behind it. -/
abbrev Lexes (text : List Char) (tokens : List Token) : Prop :=
  ∀ rest, lex (text ++ rest) = (lex rest).map (tokens ++ ·)

/-- A text is cut into tokens if no word character comes behind it. -/
abbrev LexesWord (text : List Char) (tokens : List Token) : Prop :=
  ∀ rest,
    (∀ c ∈ rest.head?, isWordChar c = false) →
    lex (text ++ rest) = (lex rest).map (tokens ++ ·)

/-- Texts one after the other. -/
theorem Lexes.append
    {first second : List Char}
    {tokens later : List Token}
    (lexes : Lexes first tokens)
    (lexesSecond : Lexes second later) :
    Lexes (first ++ second) (tokens ++ later) := by
  intro rest
  rw [List.append_assoc, lexes, lexesSecond, Option.map_map]
  refine congrArg (Option.map · (lex rest)) (funext fun last => ?_)
  exact (List.append_assoc tokens later last).symm

/-- A word behind a text. -/
theorem Lexes.append_word
    {first second : List Char}
    {tokens later : List Token}
    (lexes : Lexes first tokens)
    (lexesSecond : LexesWord second later) :
    LexesWord (first ++ second) (tokens ++ later) := by
  intro rest boundary
  rw [List.append_assoc, lexes, lexesSecond rest boundary, Option.map_map]
  refine congrArg (Option.map · (lex rest)) (funext fun last => ?_)
  exact (List.append_assoc tokens later last).symm

/-- A text that does not start with a word character behind a word. -/
theorem LexesWord.append
    {first second : List Char}
    {tokens later : List Token}
    {start : Char}
    (lexes : LexesWord first tokens)
    (starts : second.head? = some start)
    (boundary : isWordChar start = false)
    (lexesSecond : Lexes second later) :
    Lexes (first ++ second) (tokens ++ later) := by
  intro rest
  have boundaryRest :
      ∀ c ∈ (second ++ rest).head?, isWordChar c = false := by
    obtain ⟨others, rfl⟩ := List.head?_eq_some_iff.mp starts
    intro c isFirst
    rw [← Option.some.inj isFirst]
    exact boundary
  rw [List.append_assoc, lexes _ boundaryRest, lexesSecond, Option.map_map]
  refine congrArg (Option.map · (lex rest)) (funext fun last => ?_)
  exact (List.append_assoc tokens later last).symm

@[simp] theorem flush_nil (later : Option (List Token)) :
    flush [] later = later :=
  if_pos rfl

@[simp] theorem flush_none (pending : List Char) :
    flush pending none = none := by
  simp [flush]

/-- A word makes one token. -/
theorem flush_word
    {word : List Char}
    {token : Token}
    (isToken : wordToken? word = some token)
    (later : Option (List Token)) :
    flush word later = later.map (token :: ·) := by
  have nonempty : word ≠ [] := by
    rintro rfl
    cases isToken
  cases later with
  | none =>
      exact flush_none word
  | some tokens =>
      simp only [flush, if_neg nonempty, isToken, Option.map_some]

/-- Word characters are collected up to the end of the word. -/
theorem lexFrom_word
    {word rest : List Char}
    (wordChars : ∀ c ∈ word, isWordChar c = true)
    (boundary : ∀ c ∈ rest.head?, isWordChar c = false)
    (pending : List Char) :
    lexFrom pending (word ++ rest) = flush (pending ++ word) (lex rest) := by
  induction word generalizing pending with
  | nil =>
      rw [List.nil_append, List.append_nil, lex]
      cases rest with
      | nil =>
          rfl
      | cons c rest =>
          have notWord : ¬ isWordChar c = true := by
            rw [boundary c rfl]
            exact Bool.false_ne_true
          rw [lexFrom, lexFrom, if_neg notWord, if_neg notWord]
          split
          · rw [flush_nil]
          · split
            · rw [flush_nil]
            · rw [flush_none]
  | cons c word inductionHypothesis =>
      obtain ⟨isWord, others⟩ := List.forall_mem_cons.mp wordChars
      rw [List.cons_append, lexFrom, if_pos isWord,
        inductionHypothesis others, List.append_assoc,
        List.singleton_append]

/-- A word is cut off as one token. -/
theorem lexesWord
    {word : List Char}
    {token : Token}
    (wordChars : ∀ c ∈ word, isWordChar c = true)
    (isToken : wordToken? word = some token) :
    LexesWord word [token] := by
  intro rest boundary
  rw [lex, lexFrom_word wordChars boundary, List.nil_append,
    flush_word isToken]
  rfl

/-- Items with separators between them. -/
theorem lexesWord_intercalate
    {separator : List Char}
    {between : List Token}
    {start : Char}
    (starts : separator.head? = some start)
    (boundary : isWordChar start = false)
    (lexesSeparator : Lexes separator between)
    {Item : Type}
    {text : Item → List Char}
    {tokens : Item → List Token}
    {items : List Item}
    (lexesItems : ∀ item ∈ items, LexesWord (text item) (tokens item)) :
    LexesWord (separator.intercalate (items.map text))
      (between.intercalate (items.map tokens)) := by
  induction items with
  | nil =>
      intro rest _
      simp
  | cons item items inductionHypothesis =>
      obtain ⟨lexesItem, lexesRest⟩ := List.forall_mem_cons.mp lexesItems
      have later := inductionHypothesis lexesRest
      cases items with
      | nil =>
          simpa using lexesItem
      | cons next items =>
          rw [List.map_cons, List.map_cons, List.map_cons, List.map_cons,
            List.intercalate_cons_cons, List.intercalate_cons_cons]
          exact (lexesItem.append starts boundary
            lexesSeparator).append_word later

end Foundation.CArray
