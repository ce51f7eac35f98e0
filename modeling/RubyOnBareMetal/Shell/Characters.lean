import RubyOnBareMetal.Foundation.Machine
import RubyOnBareMetal.Shell.LineRefinement

namespace RubyOnBareMetal.Shell

open Foundation

/-!
# Lines of characters

`sysread(1)` delivers a character as one to four strings of one byte, so that
`buf` is a binary string and `cursor` counts bytes.  The line is edited as a
line of characters exactly as long as no key moves over a character of
several bytes or erases one.
-/

/-- The keys that edit a line of text. -/
inductive TextKey where
  | character
      (c : Char)
      (noMeaning :
        c.toNat ∉ [0x03, 0x04, 0x08, 0x0A, 0x0D, 0x1B, 0x7F])
  | erase (c : UInt8) (delOrBs : c = 0x7F ∨ c = 0x08)
  | right
  | left

namespace TextKey

/-- The bytes of a key. -/
def encode : TextKey → List UInt8
  | .character c _ => String.utf8EncodeChar c
  | .erase c _ => [c]
  | .right => [0x1B, 0x5B, 0x43]
  | .left => [0x1B, 0x5B, 0x44]

/-- The passes of the loop that take the bytes of a key. -/
def passes : TextKey → Nat
  | .character c _ => (String.utf8EncodeChar c).length
  | .erase _ _ => 1
  | .right => 1
  | .left => 1

/-- What a key does to a line of characters. -/
def press (line : Zipper Char) : TextKey → Zipper Char
  | .character c _ => line.insert c
  | .erase _ _ => line.eraseLeft
  | .right => line.moveRight
  | .left => line.moveLeft

/-- What the loop does to the bytes of the line. -/
def pressBytes (line : Zipper UInt8) : TextKey → Zipper UInt8
  | .character c _ =>
      if c.toNat < 0x20 then
        line
      else
        line.insertAll (String.utf8EncodeChar c)
  | .erase _ _ => line.eraseLeft
  | .right => line.moveRight
  | .left => line.moveLeft

/-- A key that is no control character and crosses single bytes only. -/
def CrossesBytes (line : Zipper Char) : TextKey → Prop
  | .character c _ => 0x20 ≤ c.toNat
  | .erase _ _ => ∀ c ∈ line.left.head?, c.utf8Size = 1
  | .right => ∀ c ∈ line.right.head?, c.utf8Size = 1
  | .left => ∀ c ∈ line.left.head?, c.utf8Size = 1

instance (line : Zipper Char) : ∀ key, Decidable (CrossesBytes line key)
  | .character c _ => inferInstanceAs (Decidable (0x20 ≤ c.toNat))
  | .erase _ _ =>
      Option.decidableForallMem line.left.head?
  | .right =>
      Option.decidableForallMem line.right.head?
  | .left =>
      Option.decidableForallMem line.left.head?

end TextKey

/-- The editor of characters, for keys that cross single bytes only. -/
def characterEditor : Machine (Zipper Char) TextKey Unit where
  step line key := ((), key.press line)
  admits := TextKey.CrossesBytes

instance (line : Zipper Char) (key : TextKey) :
    Decidable (characterEditor.admits line key) :=
  inferInstanceAs (Decidable (key.CrossesBytes line))

/-- The editor of the bytes. -/
def byteEditor : Machine (Zipper UInt8) TextKey Unit where
  step line key := ((), key.pressBytes line)
  admits _ _ := True

/-- The same keys on the bytes and on the characters. -/
def pairedEditors :
    Machine (Zipper UInt8 × Zipper Char) TextKey Unit where
  step lines key := ((), key.pressBytes lines.1, key.press lines.2)
  admits _ _ := True

/-- The line of characters after some keys. -/
def typedLine (keys : List TextKey) : Zipper Char :=
  characterEditor.run (.atEnd []) keys

/-- The bytes of a text. -/
abbrev utf8 (text : List Char) : List UInt8 :=
  text.flatMap String.utf8EncodeChar

/-- `buf` and `cursor` are those of a line of characters. -/
def SpellsLine (reader : LineReader) (line : Zipper Char) : Prop :=
  reader.buf = utf8 line.toList ∧
    reader.cursor = (utf8 line.left.reverse).length

/-- The number of passes for some keys. -/
def passCount : List TextKey → Nat
  | [] => 0
  | key :: keys => key.passes + passCount keys

/-! ## The bytes of one key -/

/-- The bytes that `pass` inserts. -/
abbrev Inserted (c : UInt8) : Prop :=
  ¬(c = 0x0A ∨ c = 0x0D) ∧ c ≠ 0x1B ∧ ¬(c = 0x7F ∨ c = 0x08) ∧
    c ≠ 0x03 ∧ c ≠ 0x04 ∧ 32 ≤ c

theorem inserted_iff :
    ∀ c : UInt8, Inserted c ↔ 0x20 ≤ c.toNat ∧ c.toNat ≠ 0x7F :=
  forall_byte (by decide +kernel)

/-- A character of one byte is that byte. -/
theorem utf8EncodeChar_ascii
    {c : Char}
    (ascii : c.toNat < 0x80) :
    String.utf8EncodeChar c = [UInt8.ofNat c.toNat] := by
  change c.val.toNat < 0x80 at ascii
  unfold String.utf8EncodeChar
  exact if_pos (Nat.le_of_lt_succ ascii)

/-- The bytes of other characters are above ASCII. -/
theorem utf8EncodeChar_aboveAscii
    {c : Char}
    (above : 0x80 ≤ c.toNat) :
    ∀ b ∈ String.utf8EncodeChar c, 0x80 ≤ b.toNat := by
  change 0x80 ≤ c.val.toNat at above
  have large (number : Nat) (range : 0x80 ≤ number ∧ number < 0x100) :
      0x80 ≤ (UInt8.ofNat number).toNat := by
    rw [UInt8.toNat_ofNat_of_lt' range.2]
    exact range.1
  unfold String.utf8EncodeChar
  dsimp only
  rw [if_neg (by omega)]
  split
  · simp only [List.forall_mem_cons]
    exact ⟨large _ (by omega), large _ (by omega), List.forall_mem_nil _⟩
  · split
    · simp only [List.forall_mem_cons]
      exact ⟨large _ (by omega), large _ (by omega), large _ (by omega),
        List.forall_mem_nil _⟩
    · simp only [List.forall_mem_cons]
      exact ⟨large _ (by omega), large _ (by omega), large _ (by omega),
        large _ (by omega), List.forall_mem_nil _⟩

/-- The bytes of a text character are inserted. -/
theorem inserted_of_text
    {c : Char}
    (text : 0x20 ≤ c.toNat)
    (notDelete : c.toNat ≠ 0x7F) :
    ∀ b ∈ String.utf8EncodeChar c, Inserted b := by
  intro b member
  rw [inserted_iff]
  by_cases ascii : c.toNat < 0x80
  · rw [utf8EncodeChar_ascii ascii, List.mem_singleton] at member
    rw [member, UInt8.toNat_ofNat_of_lt' (ascii.trans (by decide))]
    exact ⟨text, notDelete⟩
  · have above :=
      utf8EncodeChar_aboveAscii (Nat.le_of_not_lt ascii) b member
    omega

/-! ## The passes of one key -/

/-- The editor with another line. -/
abbrev Editor.withLine (editor : Editor) (line : Zipper UInt8) : Editor :=
  { editor with line := line }

/-- Bytes that are inserted are put before the cursor, a pass for each. -/
theorem passes_insert
    {bytes : List UInt8}
    (inserted : ∀ b ∈ bytes, Inserted b)
    {reader : LineReader}
    {editor : Editor}
    {rest : List UInt8}
    (represents : Represents reader editor)
    (input : reader.input = bytes ++ rest) :
    ∃ next, passes bytes.length reader = .again next ∧
      next.input = rest ∧
      Represents next (editor.withLine (editor.line.insertAll bytes)) := by
  induction bytes generalizing reader editor with
  | nil =>
      exact ⟨reader, rfl, input, represents⟩
  | cons b bytes inductionHypothesis =>
      obtain ⟨insertedNow, insertedLater⟩ :=
        List.forall_mem_cons.mp inserted
      obtain ⟨notEnter, notEscape, notErase, notInterrupt, notEnd, atLeast⟩ :=
        insertedNow
      have passed :
          pass reader =
            insertCharacter (reader.left (bytes ++ rest)) b := by
        simp only [pass, input, List.cons_append, if_neg notEnter,
          if_neg notEscape, if_neg notErase, if_neg notInterrupt,
          if_neg notEnd, if_pos atLeast]
      obtain ⟨next, put, nextInput, -, -, nextRepresents⟩ :=
        insertCharacter_inserts
          (represents_left represents (bytes ++ rest)) b
      obtain ⟨last, putLater, left, represented⟩ :=
        inductionHypothesis insertedLater nextRepresents nextInput
      refine ⟨last, ?_, left, represented⟩
      rw [List.length_cons, passes, passed, put]
      exact putLater

/-- A key of the line reader takes one pass. -/
theorem passes_key
    {reader : LineReader}
    {editor : Editor}
    (key : Key)
    {rest : List UInt8}
    (represents : Represents reader editor)
    (input : reader.input = key.encode ++ rest) :
    ∃ next, passes 1 reader = .again next ∧
      next.input = rest ∧
      Represents next (editor.press key) := by
  obtain ⟨next, passed, follows⟩ := pass_follows represents input
  refine ⟨next, ?_, follows.input, follows.represents⟩
  rw [passes, passed]
  rfl

/-- A key does to the variables what it does to the bytes of the line. -/
theorem passes_textKey
    {reader : LineReader}
    {editor : Editor}
    {key : TextKey}
    {rest : List UInt8}
    (represents : Represents reader editor)
    (input : reader.input = key.encode ++ rest) :
    ∃ next, passes key.passes reader = .again next ∧
      next.input = rest ∧
      Represents next (editor.withLine (key.pressBytes editor.line)) := by
  cases key with
  | character c noMeaning =>
      by_cases control : c.toNat < 0x20
      · have ascii : c.toNat < 0x80 := control.trans (by decide)
        have single := utf8EncodeChar_ascii ascii
        have code : (UInt8.ofNat c.toNat).toNat = c.toNat :=
          UInt8.toNat_ofNat_of_lt' (ascii.trans (by decide))
        have below : UInt8.ofNat c.toNat < 0x20 := by
          rw [UInt8.lt_iff_toNat_lt, code]
          exact control
        have ignored :
            UInt8.ofNat c.toNat ∉ [0x03, 0x04, 0x08, 0x0A, 0x0D, 0x1B] := by
          simp only [List.mem_cons, List.not_mem_nil, or_false, not_or,
            ← UInt8.toNat_inj, code] at noMeaning ⊢
          exact ⟨noMeaning.1, noMeaning.2.1, noMeaning.2.2.1,
            noMeaning.2.2.2.1, noMeaning.2.2.2.2.1,
            noMeaning.2.2.2.2.2.1⟩
        simp only [TextKey.encode, TextKey.passes, TextKey.pressBytes,
          single, List.length_singleton, if_pos control] at input ⊢
        exact passes_key (.ignored _ below ignored) represents input
      · have inserted :=
          inserted_of_text (Nat.le_of_not_lt control)
            (fun isDelete => noMeaning (by simp [isDelete]))
        simp only [TextKey.pressBytes, if_neg control]
        exact passes_insert inserted represents input
  | erase c delOrBs =>
      exact passes_key (.erase c delOrBs) represents input
  | right =>
      exact passes_key .right represents input
  | left =>
      exact passes_key .left represents input

/-- So do any keys. -/
theorem passes_textKeys
    (keys : List TextKey)
    {reader : LineReader}
    {editor : Editor}
    {rest : List UInt8}
    (represents : Represents reader editor)
    (input : reader.input = keys.flatMap TextKey.encode ++ rest) :
    ∃ next, passes (passCount keys) reader = .again next ∧
      next.input = rest ∧
      Represents next
        (editor.withLine (byteEditor.run editor.line keys)) := by
  induction keys generalizing reader editor with
  | nil =>
      exact ⟨reader, rfl, input, represents⟩
  | cons key keys inductionHypothesis =>
      rw [List.flatMap_cons, List.append_assoc] at input
      obtain ⟨next, passed, nextInput, nextRepresents⟩ :=
        passes_textKey represents input
      obtain ⟨last, passedLater, left, represented⟩ :=
        inductionHypothesis nextRepresents nextInput
      refine ⟨last, ?_, left, represented⟩
      rw [passCount, passes_add, passed]
      exact passedLater

/-- Every key has at least as many bytes as passes. -/
theorem passCount_le (keys : List TextKey) :
    passCount keys ≤ (keys.flatMap TextKey.encode).length := by
  induction keys with
  | nil =>
      exact Nat.le_refl 0
  | cons key keys inductionHypothesis =>
      have enough : key.passes ≤ key.encode.length := by
        cases key with
        | character c noMeaning => exact Nat.le_refl _
        | erase c delOrBs => exact Nat.le_refl 1
        | right => exact Nat.le_add_left 1 2
        | left => exact Nat.le_add_left 1 2
      rw [passCount, List.flatMap_cons, List.length_append]
      exact Nat.add_le_add enough inductionHypothesis

/-! ## Bytes and characters -/

/-- Every character has bytes. -/
theorem utf8EncodeChar_ne_nil (c : Char) :
    String.utf8EncodeChar c ≠ [] := by
  rw [← List.length_pos_iff, String.length_utf8EncodeChar]
  exact c.utf8Size_pos

/-- A control character is missing from the bytes. -/
theorem not_encodes_insert
    {code : Zipper UInt8}
    {line : Zipper Char}
    (encodes : Zipper.Encodes String.utf8EncodeChar code line)
    (c : Char) :
    ¬Zipper.Encodes String.utf8EncodeChar code (line.insert c) := by
  intro inserted
  have sameLeft := inserted.left.symm.trans encodes.left
  have positive := List.length_pos_iff.mpr (utf8EncodeChar_ne_nil c)
  have sameLength := congrArg List.length sameLeft
  simp only [Zipper.insert, List.reverse_cons, List.flatMap_append,
    List.flatMap_singleton, List.length_append] at sameLength
  omega

/-- A key keeps bytes and characters together if it crosses bytes only. -/
theorem pressBytes_encodes_iff
    {code : Zipper UInt8}
    {line : Zipper Char}
    (encodes : Zipper.Encodes String.utf8EncodeChar code line)
    (key : TextKey) :
    Zipper.Encodes String.utf8EncodeChar
        (key.pressBytes code) (key.press line) ↔
      key.CrossesBytes line := by
  have nonempty := utf8EncodeChar_ne_nil
  cases key with
  | character c noMeaning =>
      simp only [TextKey.pressBytes, TextKey.press, TextKey.CrossesBytes]
      split
      · next control =>
          exact iff_of_false (not_encodes_insert encodes c)
            (Nat.not_le_of_lt control)
      · next text =>
          exact iff_of_true (encodes.insert c) (Nat.le_of_not_lt text)
  | erase c delOrBs =>
      have kept := encodes.eraseLeft_iff nonempty
      simp only [String.length_utf8EncodeChar] at kept
      exact kept
  | right =>
      have kept := encodes.moveRight_iff nonempty
      simp only [String.length_utf8EncodeChar] at kept
      exact kept
  | left =>
      have kept := encodes.moveLeft_iff nonempty
      simp only [String.length_utf8EncodeChar] at kept
      exact kept

/-- Bytes and characters stay together as long as all keys keep them. -/
theorem encodes_always_iff (keys : List TextKey) :
    (∀ earlier later,
        keys = earlier ++ later →
        Zipper.Encodes String.utf8EncodeChar
          (byteEditor.run (.atEnd []) earlier) (typedLine earlier)) ↔
      characterEditor.Admissible (.atEnd []) keys := by
  let start : Zipper UInt8 × Zipper Char := (.atEnd [], .atEnd [])
  let together (lines : Zipper UInt8 × Zipper Char) : Prop :=
    Zipper.Encodes String.utf8EncodeChar lines.1 lines.2
  let crosses (lines : Zipper UInt8 × Zipper Char) (key : TextKey) : Prop :=
    key.CrossesBytes lines.2
  have runs (earlier : List TextKey) :
      together (pairedEditors.run start earlier) ↔
        Zipper.Encodes String.utf8EncodeChar
          (byteEditor.run (.atEnd []) earlier) (typedLine earlier) := by
    have bytes :
        (pairedEditors.run start earlier).1 =
          byteEditor.run (.atEnd []) earlier :=
      pairedEditors.run_project (fun _ _ => rfl) start earlier
    have characters :
        (pairedEditors.run start earlier).2 = typedLine earlier :=
      pairedEditors.run_project (fun _ _ => rfl) start earlier
    simp only [together, bytes, characters]
  have always :
      (∀ earlier later,
          keys = earlier ++ later →
          together (pairedEditors.run start earlier)) ↔
        Machine.Admissible ⟨pairedEditors.step, crosses⟩ start keys :=
    @Machine.run_always_iff _ _ _ pairedEditors (fun _ => True) together
      crosses (fun _ _ => trivial)
      (fun _ encodes _ => pressBytes_encodes_iff encodes _) _ _ trivial
      ⟨rfl, rfl⟩
      (pairedEditors.admissible_of_forall (fun _ _ => trivial) _ _)
  have projected :
      Machine.Admissible ⟨pairedEditors.step, crosses⟩ start keys ↔
        characterEditor.Admissible (.atEnd []) keys :=
    @Machine.admissible_project _ _ _ ⟨pairedEditors.step, crosses⟩ _ _
      characterEditor Prod.snd (fun _ _ => rfl) (fun _ _ => Iff.rfl)
      start keys
  simp only [runs] at always
  exact always.trans projected

/-! ## The line that is returned -/

/-- The input of `read_line` for some keys and a byte that ends the line. -/
abbrev typedInput
    (keys : List TextKey)
    (enter : UInt8)
    (later : List UInt8) : List UInt8 :=
  keys.flatMap TextKey.encode ++ enter :: later

/-- After each key the loop has the line of characters. -/
def SpellsAlways
    (prompt : Text)
    (history : List Text)
    (keys : List TextKey)
    (enter : UInt8)
    (later : List UInt8) : Prop :=
  ∀ earlier rest,
    keys = earlier ++ rest →
    ∃ reader,
      passes (passCount earlier)
          (.start prompt history (typedInput keys enter later)) =
        .again reader ∧
      SpellsLine reader (typedLine earlier)

/-- The loop after some of the keys stands for the bytes of the line. -/
theorem passes_typed
    (prompt : Text)
    (history : List Text)
    (earlier rest : List TextKey)
    (enter : UInt8)
    (later : List UInt8) :
    ∃ reader,
      passes (passCount earlier)
          (.start prompt history
            (typedInput (earlier ++ rest) enter later)) =
        .again reader ∧
      reader.input = typedInput rest enter later ∧
      ∀ line,
        SpellsLine reader line ↔
          Zipper.Encodes String.utf8EncodeChar
            (byteEditor.run (.atEnd []) earlier) line := by
  have input :
      typedInput (earlier ++ rest) enter later =
        earlier.flatMap TextKey.encode ++ typedInput rest enter later := by
    simp [typedInput]
  obtain ⟨reader, passed, left, represents⟩ :=
    passes_textKeys earlier
      (represents_start prompt history
        (typedInput (earlier ++ rest) enter later)) input
  refine ⟨reader, passed, left, fun line => ?_⟩
  rw [Zipper.encodes_iff, SpellsLine, represents.buf, represents.cursor,
    Int.ofNat_inj]
  rfl

/--
For every prompt, history and keys, ended by CR or LF, the loop has the
characters of the line after each key if and only if no control character is
typed and no key moves over or erases a character of several bytes; then
`read_line` returns the line of characters in UTF-8.
-/
theorem read_line_edits_characters_iff
    (prompt : Text)
    (history : List Text)
    (keys : List TextKey)
    (enter : UInt8)
    (isEnter : enter = 0x0A ∨ enter = 0x0D)
    (later : List UInt8) :
    (SpellsAlways prompt history keys enter later ↔
      characterEditor.Admissible (.atEnd []) keys) ∧
    (characterEditor.Admissible (.atEnd []) keys →
      ∃ reader,
        readLine prompt history (typedInput keys enter later) =
          .returned (utf8 (typedLine keys).toList) reader) := by
  rw [← encodes_always_iff]
  constructor
  · apply forall₃_congr
    rintro earlier rest rfl
    obtain ⟨reader, passed, -, spellsLine⟩ :=
      passes_typed prompt history earlier rest enter later
    constructor
    · rintro ⟨same, passedSame, spellsSame⟩
      rw [passed] at passedSame
      cases passedSame
      exact (spellsLine _).mp spellsSame
    · intro encodes
      exact ⟨reader, passed, (spellsLine _).mpr encodes⟩
  · intro always
    have encodes := always keys [] (List.append_nil keys).symm
    obtain ⟨reader, passed, input, spellsLine⟩ :=
      passes_typed prompt history keys [] enter later
    rw [List.append_nil] at passed
    have sameLine := (spellsLine _).mpr encodes
    have enough :
        passCount keys + 1 ≤ (typedInput keys enter later).length + 1 := by
      rw [typedInput, List.length_append]
      exact Nat.succ_le_succ
        (Nat.le_trans (passCount_le keys) (Nat.le_add_right _ _))
    obtain ⟨more, total⟩ := Nat.exists_eq_add_of_le enough
    refine ⟨(reader.left later).write [0x0A], ?_⟩
    rw [readLine, total, Nat.add_assoc, passes_add, passed]
    dsimp only
    rw [Nat.add_comm 1 more, passes, pass_enter input isEnter]
    dsimp only
    rw [sameLine.1]

/-- Between `é` and `a` a `b` is inserted, and the `a` is erased. -/
theorem read_line_edits_ascii :
    ∃ reader,
      readLine [0x24] []
          (typedInput
            [.character 'é' (by decide), .character 'a' (by decide), .left,
              .character 'b' (by decide), .right, .erase 0x7F (.inl rfl)]
            0x0D []) =
        .returned (utf8 ['é', 'b']) reader :=
  (read_line_edits_characters_iff [0x24] []
    [.character 'é' (by decide), .character 'a' (by decide), .left,
      .character 'b' (by decide), .right, .erase 0x7F (.inl rfl)]
    0x0D (.inr rfl) []).2 (by decide +kernel)

/-- An erased `é` leaves its first byte in the line. -/
theorem read_line_erases_half :
    ¬∃ reader,
      readLine [0x24] []
          (typedInput
            [.character 'é' (by decide), .erase 0x7F (.inl rfl)]
            0x0D []) =
        .returned
          (utf8
            (typedLine
              [.character 'é' (by decide), .erase 0x7F (.inl rfl)]).toList)
          reader := by
  rintro ⟨reader, returned⟩
  have line :
      readLine [0x24] []
          (typedInput
            [.character 'é' (by decide), .erase 0x7F (.inl rfl)]
            0x0D []) =
        .returned [0xC3]
          { LineReader.start [0x24] [] [] with
            output :=
              [0x24, 0xC3, 0xA9] ++ clearLine ++ [0x24, 0xC3, 0x0A]
            buf := [0xC3]
            cursor := 1 } := by
    decide +kernel
  rw [line] at returned
  cases returned

end RubyOnBareMetal.Shell
