import RubyOnBareMetal.Foundation.Bytes
import RubyOnBareMetal.Foundation.Decoder
import RubyOnBareMetal.TerminalAdapter.Keyboard

namespace RubyOnBareMetal.TerminalAdapter

open Foundation

/-!
# The byte after ESC

A byte that follows ESC and starts no sequence is stored in `@pending_byte`,
which no later call delivers.  The following calls therefore decode what
comes after that byte, and the keys are right only if dropping it does not
change them: when the rest of the input says everything twice.
-/

/-! ## The keys of a stream -/

/-- A stored byte changes neither the key that is read nor what is left. -/
theorem handleInputByte_pendingByte
    (rest : List UInt8)
    (pendingByte : Option UInt8)
    (byte : UInt8) :
    (handleInputByte ⟨rest, pendingByte⟩ byte).1 =
        (handleInputByte ⟨rest, none⟩ byte).1 ∧
      (handleInputByte ⟨rest, pendingByte⟩ byte).2.input =
        (handleInputByte ⟨rest, none⟩ byte).2.input := by
  by_cases isEscape : byte = 0x1B
  · cases rest with
    | nil =>
        simp [handleInputByte, readByte, isEscape]
    | cons b2 rest =>
        by_cases isCsi : b2 = 0x5B
        · simp [handleInputByte, readByte, readCsiSequence, isEscape, isCsi]
        · by_cases isSs3 : b2 = 0x4F
          · cases rest <;>
              simp [handleInputByte, readByte, readSs3Sequence, isEscape,
                isSs3]
          · simp [handleInputByte, readByte, isEscape, isCsi, isSs3]
  · simp [handleInputByte, isEscape]

/-- A control sequence is a part of the stream. -/
theorem readParams_shrinks (stream : List UInt8) :
    (readParams stream).2.length ≤ stream.length := by
  induction stream with
  | nil =>
      exact Nat.le_refl _
  | cons b rest inductionHypothesis =>
      cases ends : isFinal b with
      | true =>
          simp [readParams, ends]
      | false =>
          simp only [readParams, ends, List.length_cons]
          exact Nat.le_succ_of_le inductionHypothesis

/-- The continuation bytes are a part of the stream. -/
theorem readContinuation_shrinks
    (times : Nat)
    (stream bytes : List UInt8) :
    (readContinuation times ⟨stream, none⟩ bytes).2.input.length ≤
      stream.length := by
  induction times generalizing stream bytes with
  | zero =>
      exact Nat.le_refl _
  | succ times inductionHypothesis =>
      cases stream with
      | nil =>
          exact Nat.le_refl _
      | cons b rest =>
          by_cases continues : b &&& 0xC0 = 0x80
          · simp only [readContinuation, readByte, if_pos continues]
            exact Nat.le_succ_of_le (inductionHypothesis rest _)
          · simp [readContinuation, readByte, continues]

/-- A key never reads beyond the stream. -/
theorem handleInputByte_shrinks
    (byte : UInt8)
    (rest : List UInt8) :
    (handleInputByte ⟨rest, none⟩ byte).2.input.length ≤
      rest.length := by
  by_cases isEscape : byte = 0x1B
  · cases rest with
    | nil =>
        simp [handleInputByte, readByte, isEscape]
    | cons b2 rest =>
        by_cases isCsi : b2 = 0x5B
        · simp only [handleInputByte, readByte, readCsiSequence, isEscape,
            isCsi, if_true, List.length_cons]
          exact Nat.le_succ_of_le (readParams_shrinks rest)
        · by_cases isSs3 : b2 = 0x4F
          · cases rest with
            | nil =>
                simp [handleInputByte, readByte, readSs3Sequence, isEscape,
                  isSs3]
            | cons b3 rest =>
                simp only [handleInputByte, readByte, readSs3Sequence,
                  isEscape, isSs3, if_true, List.length_cons]
                exact Nat.le_add_right rest.length 2
          · simp [handleInputByte, readByte, isEscape, isCsi, isSs3]
  · by_cases aboveAscii : 0x80 ≤ byte
    · cases announced : expectedLength? byte with
      | none =>
          simp [handleInputByte, readUtf8Char, isEscape, aboveAscii,
            announced]
      | some expected =>
          simp only [handleInputByte, readUtf8Char, isEscape, if_false,
            if_pos aboveAscii, announced]
          exact readContinuation_shrinks _ rest _
    · simp only [handleInputByte, isEscape, if_false, if_neg aboveAscii]
      split <;> exact Nat.le_refl _

/-- The reader behind `getch`. -/
def keyReader : Reader UInt8 Value where
  next byte rest :=
    ((handleInputByte ⟨rest, none⟩ byte).1,
      (handleInputByte ⟨rest, none⟩ byte).2.input)
  shrinks := handleInputByte_shrinks

/-- `getch` reads with the reader, whatever byte is stored. -/
theorem getch_reads
    {adapter : Adapter}
    (byte : UInt8)
    (rest : List UInt8)
    (stream : adapter.input = byte :: rest) :
    (keyboard.step adapter ()).1 = some (keyReader.next byte rest).1 ∧
      (keyboard.step adapter ()).2.input =
        (keyReader.next byte rest).2 := by
  obtain ⟨sameValue, sameInput⟩ :=
    handleInputByte_pendingByte rest adapter.pendingByte byte
  have taken :
      getch adapter =
        (some (handleInputByte ⟨rest, adapter.pendingByte⟩ byte).1,
          (handleInputByte ⟨rest, adapter.pendingByte⟩ byte).2) := by
    simp [getch, readByte, stream]
  constructor
  · exact (congrArg Prod.fst taken).trans (congrArg some sameValue)
  · exact (congrArg (fun result => result.2.input) taken).trans sameInput

/-! ## One key -/

/-- The first byte of a character of two to four bytes. -/
abbrev IsLead (byte : UInt8) : Prop :=
  expectedLength? byte ≠ none

/-- The key of a byte that stands for itself. -/
def ownKey (byte : UInt8) : Value :=
  if 0x20 ≤ byte ∧ byte ≤ 0x7E then
    .string [byte]
  else
    .integer byte.toNat

theorem lead_aboveAscii :
    ∀ byte, IsLead byte → 0x80 ≤ byte :=
  forall_byte (by decide +kernel)

theorem lead_not_continues :
    ∀ byte, IsLead byte → byte &&& 0xC0 ≠ 0x80 :=
  forall_byte (by decide +kernel)

theorem aboveAscii_not_printable :
    ∀ byte : UInt8, 0x80 ≤ byte → ¬(0x20 ≤ byte ∧ byte ≤ 0x7E) :=
  forall_byte (by decide +kernel)

/-- A byte that neither is ESC nor starts a character is a key. -/
theorem next_own
    {byte : UInt8}
    (notEscape : byte ≠ 0x1B)
    (notLead : expectedLength? byte = none)
    (rest : List UInt8) :
    keyReader.next byte rest = (ownKey byte, rest) := by
  by_cases above : 0x80 ≤ byte
  · simp [keyReader, handleInputByte, readUtf8Char, ownKey, notEscape,
      notLead, above, aboveAscii_not_printable byte above]
  · by_cases printable : 0x20 ≤ byte ∧ byte ≤ 0x7E
    · simp [keyReader, handleInputByte, ownKey, notEscape, above, printable]
    · simp only [keyReader, handleInputByte, ownKey, if_neg notEscape,
        if_neg above, if_neg printable]

/-- The first byte of a character is read with the loop. -/
theorem next_lead
    {byte : UInt8}
    {expected : Nat}
    (announced : expectedLength? byte = some expected)
    (rest : List UInt8) :
    keyReader.next byte rest =
      (.string (readContinuation (expected - 1) ⟨rest, none⟩ [byte]).1,
        (readContinuation (expected - 1) ⟨rest, none⟩ [byte]).2.input) := by
  have isLead : IsLead byte := by
    rw [IsLead, announced]
    exact Option.some_ne_none expected
  have notEscape : byte ≠ 0x1B := by
    rintro rfl
    exact isLead rfl
  simp [keyReader, handleInputByte, readUtf8Char, notEscape,
    lead_aboveAscii byte isLead, announced]

/-- The loop only adds to the bytes it has. -/
theorem readContinuation_extends
    (times : Nat)
    (stream bytes : List UInt8) :
    ∃ more,
      (readContinuation times ⟨stream, none⟩ bytes).1 = bytes ++ more := by
  induction times generalizing stream bytes with
  | zero =>
      exact ⟨[], (List.append_nil bytes).symm⟩
  | succ times inductionHypothesis =>
      cases stream with
      | nil =>
          exact ⟨[], (List.append_nil bytes).symm⟩
      | cons b rest =>
          by_cases continues : b &&& 0xC0 = 0x80
          · obtain ⟨more, extended⟩ := inductionHypothesis rest (bytes ++ [b])
            refine ⟨b :: more, ?_⟩
            simp only [readContinuation, readByte, if_pos continues,
              extended, List.append_assoc, List.singleton_append]
          · exact ⟨[], by simp [readContinuation, readByte, continues]⟩

/-- A character that is not continued loses the byte that follows. -/
theorem next_lead_broken
    {byte : UInt8}
    (isLead : IsLead byte)
    {b : UInt8}
    (broken : b &&& 0xC0 ≠ 0x80)
    (rest : List UInt8) :
    keyReader.next byte (b :: rest) = (.string [byte], rest) := by
  obtain ⟨expected, announced⟩ := Option.ne_none_iff_exists'.mp isLead
  have positive : expected - 1 = (expected - 2) + 1 := by
    unfold expectedLength? at announced
    grind
  rw [next_lead announced, positive]
  simp [readContinuation, readByte, broken]

/-- A character that is continued is not its first byte alone. -/
theorem next_lead_continued
    {byte : UInt8}
    (isLead : IsLead byte)
    {b : UInt8}
    (continues : b &&& 0xC0 = 0x80)
    (rest : List UInt8) :
    (keyReader.next byte (b :: rest)).1 ≠ .string [byte] := by
  obtain ⟨expected, announced⟩ := Option.ne_none_iff_exists'.mp isLead
  have positive : expected - 1 = (expected - 2) + 1 := by
    unfold expectedLength? at announced
    grind
  obtain ⟨more, extended⟩ :=
    readContinuation_extends (expected - 2) rest [byte, b]
  rw [next_lead announced, positive]
  simp [readContinuation, readByte, continues, extended]

/-- At the end of the input a character is its first byte. -/
theorem next_lead_nil
    {byte : UInt8}
    (isLead : IsLead byte) :
    keyReader.next byte [] = (.string [byte], []) := by
  obtain ⟨expected, announced⟩ := Option.ne_none_iff_exists'.mp isLead
  rw [next_lead announced]
  cases expected - 1 <;> rfl

/-- The key of ESC, also returned for sequences that are not known. -/
abbrev escapeKey : Value := .integer 0x1B

theorem next_escape_nil :
    keyReader.next 0x1B [] = (escapeKey, []) :=
  rfl

theorem next_escape_csi (rest : List UInt8) :
    keyReader.next 0x1B (0x5B :: rest) =
      (.integer ((csiKeys.lookup (readParams rest).1).getD 0x1B),
        (readParams rest).2) :=
  rfl

theorem next_escape_ss3_nil :
    keyReader.next 0x1B [0x4F] = (escapeKey, []) :=
  rfl

theorem next_escape_ss3
    (b : UInt8)
    (rest : List UInt8) :
    keyReader.next 0x1B (0x4F :: b :: rest) =
      (.integer ((ss3Keys.lookup b).getD 0x1B), rest) :=
  rfl

/-- ESC takes the byte that follows it, whatever that is. -/
theorem next_escape_other
    {b : UInt8}
    (notCsi : b ≠ 0x5B)
    (notSs3 : b ≠ 0x4F)
    (rest : List UInt8) :
    keyReader.next 0x1B (b :: rest) = (escapeKey, rest) := by
  simp [keyReader, handleInputByte, readByte, notCsi, notSs3]

/-- Only a string that starts with the byte is read from another byte. -/
theorem next_head
    {byte : UInt8}
    (notEscape : byte ≠ 0x1B)
    (rest : List UInt8) :
    (∃ more, (keyReader.next byte rest).1 = .string (byte :: more)) ∨
      (keyReader.next byte rest).1 = .integer byte.toNat := by
  cases announced : expectedLength? byte with
  | none =>
      rw [next_own notEscape announced, ownKey]
      split
      · exact .inl ⟨[], rfl⟩
      · exact .inr rfl
  | some expected =>
      obtain ⟨more, extended⟩ :=
        readContinuation_extends (expected - 1) rest [byte]
      rw [next_lead announced, extended]
      exact .inl ⟨more, rfl⟩

/-- The key of ESC is read from ESC only. -/
theorem byte_of_escapeKey
    {byte : UInt8}
    {rest : List UInt8}
    (read : (keyReader.next byte rest).1 = escapeKey) :
    byte = 0x1B := by
  by_contra notEscape
  rcases next_head notEscape rest with ⟨more, string⟩ | integer
  · rw [string] at read
    cases read
  · rw [integer] at read
    injection read with same
    exact notEscape (UInt8.toNat_inj.mp same)

/-- A string starts with the byte it is read from. -/
theorem byte_of_string
    {byte head : UInt8}
    {rest more : List UInt8}
    (read : (keyReader.next byte rest).1 = .string (head :: more)) :
    byte = head := by
  by_cases isEscape : byte = 0x1B
  · subst isEscape
    cases rest with
    | nil =>
        rw [next_escape_nil] at read
        cases read
    | cons b rest =>
        by_cases isCsi : b = 0x5B
        · rw [isCsi, next_escape_csi] at read
          cases read
        · by_cases isSs3 : b = 0x4F
          · cases rest with
            | nil =>
                rw [isSs3, next_escape_ss3_nil] at read
                cases read
            | cons b3 rest =>
                rw [isSs3, next_escape_ss3] at read
                cases read
          · rw [next_escape_other isCsi isSs3] at read
            cases read
  · rcases next_head isEscape rest with ⟨_, string⟩ | integer
    · rw [string] at read
      injection read with same
      exact (List.cons.inj same).1
    · rw [integer] at read
      cases read

/-! ## Where a bracket ends a key -/

/-- The loop reads a bracket as a byte that does not continue. -/
theorem readContinuation_bracket
    (times : Nat)
    (stream after bytes : List UInt8) :
    (∃ before left,
      stream = before ++ left ∧
        (readContinuation times ⟨stream ++ 0x5B :: after, none⟩ bytes).2.input =
          left ++ 0x5B :: after) ∨
      (readContinuation times ⟨stream ++ 0x5B :: after, none⟩ bytes).2.input =
        after := by
  induction times generalizing stream bytes with
  | zero =>
      exact .inl ⟨[], stream, rfl, rfl⟩
  | succ times inductionHypothesis =>
      cases stream with
      | nil =>
          exact .inr rfl
      | cons b rest =>
          by_cases continues : b &&& 0xC0 = 0x80
          · simp only [List.cons_append, readContinuation, readByte,
              if_pos continues]
            rcases inductionHypothesis rest (bytes ++ [b]) with
              ⟨before, left, split, input⟩ | input
            · exact .inl ⟨b :: before, left, by rw [split]; rfl, input⟩
            · exact .inr input
          · refine .inl ⟨[b], rest, rfl, ?_⟩
            simp [readContinuation, readByte, continues]

/-- A bracket ends a control sequence. -/
theorem readParams_bracket (stream after : List UInt8) :
    (∃ before left,
      stream = before ++ left ∧
        (readParams (stream ++ 0x5B :: after)).2 = left ++ 0x5B :: after) ∨
      (readParams (stream ++ 0x5B :: after)).2 = after := by
  induction stream with
  | nil =>
      exact .inr rfl
  | cons b rest inductionHypothesis =>
      cases ends : isFinal b with
      | true =>
          exact .inl ⟨[b], rest, rfl, by simp [readParams, ends]⟩
      | false =>
          simp only [List.cons_append, readParams, ends]
          rcases inductionHypothesis with ⟨before, left, split, input⟩ | input
          · exact .inl ⟨b :: before, left, by rw [split]; rfl, input⟩
          · exact .inr input

/-- The bytes do not end in ESC. -/
abbrev EndsClosed (stream : List UInt8) : Prop :=
  stream.getLast? ≠ some 0x1B

/-- A part at the end does not end in ESC either. -/
theorem endsClosed_suffix
    {before stream : List UInt8}
    (closed : EndsClosed (before ++ stream)) :
    EndsClosed stream := by
  intro last
  exact closed (by rw [List.getLast?_append, last, Option.some_or])

/-- A key that starts before a bracket ends before it or with it. -/
theorem next_bracket
    {byte : UInt8}
    {stream : List UInt8}
    (closed : EndsClosed (byte :: stream))
    (after : List UInt8) :
    (∃ before left,
      stream = before ++ left ∧
        (keyReader.next byte (stream ++ 0x5B :: after)).2 =
          left ++ 0x5B :: after) ∨
      (keyReader.next byte (stream ++ 0x5B :: after)).2 = after := by
  by_cases isEscape : byte = 0x1B
  · subst isEscape
    cases stream with
    | nil =>
        exact absurd rfl closed
    | cons b rest =>
        by_cases isCsi : b = 0x5B
        · rw [isCsi, List.cons_append, next_escape_csi]
          rcases readParams_bracket rest after with
            ⟨before, left, split, input⟩ | input
          · exact .inl ⟨0x5B :: before, left, by rw [split]; rfl, input⟩
          · exact .inr input
        · by_cases isSs3 : b = 0x4F
          · cases rest with
            | nil =>
                exact .inr (by rw [isSs3]; rfl)
            | cons b3 rest =>
                exact .inl ⟨[b, b3], rest, rfl, by rw [isSs3]; rfl⟩
          · rw [List.cons_append, next_escape_other isCsi isSs3]
            exact .inl ⟨[b], rest, rfl, rfl⟩
  · cases announced : expectedLength? byte with
    | none =>
        rw [next_own isEscape announced]
        exact .inl ⟨[], stream, rfl, rfl⟩
    | some expected =>
        rw [next_lead announced]
        exact readContinuation_bracket (expected - 1) stream after [byte]

/--
Whatever is decoded before a bracket that does not follow ESC, the decoding
goes on right after the bracket.
-/
theorem values_bracket
    (stream after : List UInt8)
    (closed : EndsClosed stream) :
    ∃ before,
      before ≠ [] ∧
        keyReader.values (stream ++ 0x5B :: after) =
          before ++ keyReader.values after := by
  induction length : stream.length using Nat.strongRecOn
    generalizing stream with
  | ind bound inductionHypothesis =>
      cases stream with
      | nil =>
          refine ⟨[.string [0x5B]], List.cons_ne_nil _ _, ?_⟩
          rw [List.nil_append, keyReader.values_cons,
            next_own (by decide) rfl]
          rfl
      | cons byte rest =>
          rw [List.cons_append, keyReader.values_cons]
          rcases next_bracket closed after with
            ⟨taken, left, split, input⟩ | input
          · have shorter : left.length < bound := by
              rw [← length, split, List.length_cons, List.length_append]
              exact Nat.lt_succ_of_le (Nat.le_add_left _ _)
            have leftClosed : EndsClosed left := by
              rw [split, ← List.cons_append] at closed
              exact endsClosed_suffix closed
            obtain ⟨before, _, decoded⟩ :=
              inductionHypothesis left.length shorter left leftClosed rfl
            rw [input, decoded]
            exact ⟨_ :: before, List.cons_ne_nil _ _, rfl⟩
          · rw [input]
            exact ⟨[_], List.cons_ne_nil _ _, rfl⟩

/-- A control sequence that leaves something ends at a final byte. -/
theorem readParams_ends
    {stream : List UInt8}
    (more : (readParams stream).2 ≠ []) :
    (∃ final ∈ (readParams stream).1.getLast?, isFinal final = true) ∧
      stream = (readParams stream).1 ++ (readParams stream).2 := by
  induction stream with
  | nil =>
      exact absurd rfl more
  | cons b rest inductionHypothesis =>
      cases ends : isFinal b with
      | true =>
          simp [readParams, ends]
      | false =>
          simp only [readParams, ends] at more ⊢
          obtain ⟨⟨final, last, isFinal⟩, split⟩ := inductionHypothesis more
          refine ⟨⟨final, ?_, isFinal⟩, congrArg (b :: ·) split⟩
          rw [Option.mem_def] at last ⊢
          simp [List.getLast?_cons, last]

/-! ## Input that says everything twice -/

/-- `ESC O ESC` and another ESC after `O`: two unknown sequences and a key. -/
abbrev escapedPairs (times : Nat) : List UInt8 :=
  (List.replicate times [0x4F, 0x1B, 0x4F, 0x1B]).flatten

/--
Input that still decodes to the same keys without its first byte: first bytes
of characters, each typed twice, and ESC typed twice.
-/
inductive Doubled : List UInt8 → Prop where
  | nil : Doubled []
  | character
      {byte : UInt8}
      {rest : List UInt8}
      (isLead : IsLead byte)
      (doubled : Doubled rest) :
      Doubled (byte :: byte :: rest)
  | escape
      {rest : List UInt8}
      (times : Nat)
      (doubled : Doubled rest) :
      Doubled (0x1B :: 0x1B :: (escapedPairs times ++ rest))

/-- Doubled input starts with a character or with ESC. -/
theorem Doubled.head
    {byte : UInt8}
    {rest : List UInt8}
    (doubled : Doubled (byte :: rest)) :
    IsLead byte ∨ byte = 0x1B := by
  cases doubled with
  | character isLead _ => exact .inl isLead
  | escape _ _ => exact .inr rfl

/-- Doubled input neither starts with a bracket nor with `O`. -/
theorem Doubled.head_ordinary
    {byte : UInt8}
    {rest : List UInt8}
    (doubled : Doubled (byte :: rest)) :
    byte ≠ 0x5B ∧ byte ≠ 0x4F ∧ byte &&& 0xC0 ≠ 0x80 := by
  rcases doubled.head with isLead | rfl
  · refine ⟨?_, ?_, lead_not_continues byte isLead⟩
    · rintro rfl
      exact isLead rfl
    · rintro rfl
      exact isLead rfl
  · decide

/-- The letter `O` is a key of its own. -/
theorem values_letter (stream : List UInt8) :
    keyReader.values (0x4F :: stream) =
      .string [0x4F] :: keyReader.values stream := by
  rw [keyReader.values_cons, next_own (by decide) rfl]
  rfl

/-- One more ESC is one more key in front of doubled input. -/
theorem values_escape_doubled
    {rest : List UInt8}
    (same : keyReader.values rest.tail = keyReader.values rest)
    (doubled : Doubled rest)
    (times : Nat) :
    keyReader.values (0x1B :: (escapedPairs times ++ rest)) =
      escapeKey :: keyReader.values (escapedPairs times ++ rest) := by
  induction times with
  | zero =>
      cases rest with
      | nil =>
          rw [keyReader.values_cons]
          rfl
      | cons byte rest =>
          obtain ⟨notCsi, notSs3, _⟩ := doubled.head_ordinary
          change keyReader.values (0x1B :: byte :: rest) = _
          rw [keyReader.values_cons, next_escape_other notCsi notSs3]
          exact congrArg (escapeKey :: ·) same
  | succ times inductionHypothesis =>
      change
        keyReader.values
            (0x1B :: 0x4F :: 0x1B :: 0x4F :: 0x1B ::
              (escapedPairs times ++ rest)) =
          escapeKey ::
            keyReader.values
              (0x4F :: 0x1B :: 0x4F :: 0x1B ::
                (escapedPairs times ++ rest))
      have unknown (stream : List UInt8) :
          keyReader.values (0x1B :: 0x4F :: 0x1B :: stream) =
            escapeKey :: keyReader.values stream := by
        rw [keyReader.values_cons, next_escape_ss3]
        rfl
      rw [unknown, values_letter, inductionHypothesis, values_letter, unknown]

/-- Doubled input decodes to the same keys without its first byte. -/
theorem values_tail_doubled
    {stream : List UInt8}
    (doubled : Doubled stream) :
    keyReader.values stream.tail = keyReader.values stream := by
  induction doubled with
  | nil =>
      rfl
  | @character byte rest isLead doubled inductionHypothesis =>
      have broken := lead_not_continues byte isLead
      rw [List.tail_cons, keyReader.values_cons byte (byte :: rest),
        next_lead_broken isLead broken]
      cases rest with
      | nil =>
          rw [keyReader.values_cons, next_lead_nil isLead]
      | cons d rest =>
          obtain ⟨_, _, brokenNext⟩ := doubled.head_ordinary
          rw [keyReader.values_cons, next_lead_broken isLead brokenNext]
          exact congrArg (_ :: ·) inductionHypothesis
  | @escape rest times doubled inductionHypothesis =>
      rw [List.tail_cons,
        values_escape_doubled inductionHypothesis doubled times,
        keyReader.values_cons 0x1B (0x1B :: _),
        next_escape_other (by decide) (by decide)]

/-! ## Nothing else says everything twice -/

/-- Input no longer than a bound is doubled if its first byte is not missed. -/
abbrev DoubledUpTo (bound : Nat) : Prop :=
  ∀ stream : List UInt8,
    stream.length ≤ bound →
    keyReader.values stream.tail = keyReader.values stream →
    Doubled stream

/-- An ESC in front that is one more key is in front of doubled input. -/
abbrev EscapedUpTo (bound : Nat) : Prop :=
  ∀ stream : List UInt8,
    stream.length ≤ bound →
    keyReader.values (0x1B :: stream) =
      escapeKey :: keyReader.values stream →
    ∃ times rest, stream = escapedPairs times ++ rest ∧ Doubled rest

/-- A missed byte that is a key of its own shortens the list of keys. -/
theorem own_not_missed
    {byte : UInt8}
    (notEscape : byte ≠ 0x1B)
    (notLead : expectedLength? byte = none)
    {rest : List UInt8} :
    keyReader.values rest ≠ keyReader.values (byte :: rest) := by
  intro same
  rw [keyReader.values_cons, next_own notEscape notLead] at same
  exact keyReader.append_values_ne (List.cons_ne_nil _ []) rest same.symm

/-- A missed first byte of a character is typed once more. -/
theorem lead_missed
    {byte : UInt8}
    (isLead : IsLead byte)
    {rest : List UInt8}
    (same : keyReader.values rest = keyReader.values (byte :: rest)) :
    ∃ later,
      rest = byte :: later ∧
        keyReader.values later.tail = keyReader.values later := by
  cases rest with
  | nil =>
      rw [keyReader.values_cons, keyReader.values_nil] at same
      cases same
  | cons b later =>
      rw [keyReader.values_cons b, keyReader.values_cons byte] at same
      obtain ⟨sameFirst, sameRest⟩ := List.cons.inj same
      have typedAgain : b = byte := by
        cases announced : expectedLength? byte with
        | none => exact absurd announced isLead
        | some expected =>
            obtain ⟨more, extended⟩ :=
              readContinuation_extends (expected - 1) (b :: later) [byte]
            rw [next_lead announced, extended] at sameFirst
            exact byte_of_string sameFirst
      subst typedAgain
      have broken := lead_not_continues b isLead
      rw [next_lead_broken isLead broken] at sameFirst sameRest
      refine ⟨later, rfl, ?_⟩
      cases later with
      | nil =>
          rfl
      | cons c later =>
          by_cases continues : c &&& 0xC0 = 0x80
          · exact absurd sameFirst (next_lead_continued isLead continues later)
          · rw [next_lead_broken isLead continues] at sameRest
            exact sameRest

/-- A bracket that follows ESC is not missed. -/
theorem bracket_not_missed (rest : List UInt8) :
    keyReader.values (0x1B :: 0x5B :: rest) ≠
      escapeKey :: keyReader.values (0x5B :: rest) := by
  intro same
  rw [keyReader.values_cons, next_escape_csi,
    keyReader.values_cons 0x5B, next_own (by decide) rfl] at same
  obtain ⟨_, sameRest⟩ := List.cons.inj same
  cases left : (readParams rest).2 with
  | nil =>
      rw [left, keyReader.values_nil] at sameRest
      cases sameRest
  | cons x after =>
      have more : (readParams rest).2 ≠ [] := by
        rw [left]
        exact List.cons_ne_nil x after
      obtain ⟨⟨final, last, ends⟩, split⟩ := readParams_ends more
      have closed : EndsClosed (readParams rest).1 := by
        rw [EndsClosed, last]
        rintro ⟨⟩
        exact absurd ends (by decide)
      rw [left, keyReader.values_cons] at sameRest
      obtain ⟨sameFirst, sameLater⟩ := List.cons.inj sameRest
      obtain rfl : x = 0x5B := byte_of_string sameFirst
      obtain ⟨before, nonempty, decoded⟩ :=
        values_bracket (readParams rest).1 after closed
      rw [left] at split
      rw [← split] at decoded
      rw [next_own (by decide) rfl, decoded] at sameLater
      exact keyReader.append_values_ne nonempty after sameLater.symm

/-- Keys that start with the letter `O` are read from that letter. -/
theorem letter_next
    {stream : List UInt8}
    {values : List Value}
    (same : keyReader.values stream = .string [0x4F] :: values) :
    ∃ rest, stream = 0x4F :: rest ∧ keyReader.values rest = values := by
  cases stream with
  | nil =>
      rw [keyReader.values_nil] at same
      cases same
  | cons byte rest =>
      have first : (keyReader.next byte rest).1 = .string [0x4F] := by
        rw [keyReader.values_cons] at same
        exact (List.cons.inj same).1
      obtain rfl := byte_of_string first
      rw [values_letter] at same
      exact ⟨rest, rfl, (List.cons.inj same).2⟩

/-- A sequence of ESC, `O` and a byte is not that byte's own integer. -/
theorem ss3Keys_other :
    ∀ b : UInt8,
      (ss3Keys.lookup b).getD 0x1B = b.toNat → b = 0x1B :=
  forall_byte (by decide +kernel)

/-- A missed pair of ESC and `O` is followed by another ESC. -/
theorem sequence_missed
    {rest : List UInt8}
    (same :
      keyReader.values rest = keyReader.values (0x1B :: 0x4F :: rest)) :
    ∃ later,
      rest = 0x1B :: later ∧
        keyReader.values (0x1B :: later) =
          escapeKey :: keyReader.values later := by
  cases rest with
  | nil =>
      rw [keyReader.values_cons, keyReader.values_nil] at same
      cases same
  | cons b later =>
      rw [keyReader.values_cons 0x1B, next_escape_ss3] at same
      have isEscape : b = 0x1B := by
        rw [keyReader.values_cons] at same
        have first := (List.cons.inj same).1
        by_contra notEscape
        rcases next_head notEscape later with ⟨more, string⟩ | integer
        · rw [string] at first
          cases first
        · rw [integer] at first
          injection first with code
          exact notEscape (ss3Keys_other b code.symm)
      subst isEscape
      exact ⟨later, rfl, same⟩

/-- An `O` that follows ESC is missed only before another such pair. -/
theorem letter_missed
    {rest : List UInt8}
    (same :
      keyReader.values (0x1B :: 0x4F :: rest) =
        escapeKey :: keyReader.values (0x4F :: rest)) :
    ∃ later,
      rest = 0x1B :: 0x4F :: 0x1B :: later ∧
        keyReader.values (0x1B :: later) =
          escapeKey :: keyReader.values later := by
  cases rest with
  | nil =>
      rw [keyReader.values_cons, next_escape_ss3_nil, values_letter,
        keyReader.values_nil] at same
      cases same
  | cons x rest =>
      rw [keyReader.values_cons, next_escape_ss3, values_letter] at same
      obtain ⟨_, sameRest⟩ := List.cons.inj same
      obtain ⟨later, rfl, sameLater⟩ := letter_next sameRest
      cases announced : expectedLength? x with
      | some expected =>
          have isLead : IsLead x := by
            rw [IsLead, announced]
            exact Option.some_ne_none expected
          rw [keyReader.values_cons x,
            next_lead_broken isLead (by decide)] at sameLater
          exact absurd sameLater.symm
            (keyReader.append_values_ne (List.cons_ne_nil _ []) later)
      | none =>
          by_cases isEscape : x = 0x1B
          · subst isEscape
            obtain ⟨last, rfl, oneMore⟩ := sequence_missed sameLater
            exact ⟨last, rfl, oneMore⟩
          · rw [keyReader.values_cons x, next_own isEscape announced,
              values_letter] at sameLater
            have nonempty : [ownKey x, .string [0x4F]] ≠ [] :=
              List.cons_ne_nil _ _
            exact absurd sameLater.symm
              (keyReader.append_values_ne nonempty later)

/-- A missed ESC is typed once more, and adds one key to what follows. -/
theorem escape_missed
    {rest : List UInt8}
    (same : keyReader.values rest = keyReader.values (0x1B :: rest)) :
    ∃ later,
      rest = 0x1B :: later ∧
        keyReader.values (0x1B :: later) =
          escapeKey :: keyReader.values later := by
  cases rest with
  | nil =>
      rw [keyReader.values_cons, keyReader.values_nil] at same
      cases same
  | cons b rest =>
      have first :
          (keyReader.next b rest).1 =
            (keyReader.next 0x1B (b :: rest)).1 := by
        rw [keyReader.values_cons, keyReader.values_cons 0x1B] at same
        exact (List.cons.inj same).1
      by_cases isCsi : b = 0x5B
      · rw [isCsi] at first
        cases first
      · by_cases isSs3 : b = 0x4F
        · rw [isSs3] at first
          cases rest with
          | nil => cases first
          | cons b3 rest => cases first
        · rw [keyReader.values_cons 0x1B,
            next_escape_other isCsi isSs3] at same
          rw [next_escape_other isCsi isSs3] at first
          obtain rfl := byte_of_escapeKey first
          exact ⟨rest, rfl, same⟩

/-- The bound of both properties grows together. -/
theorem doubledUpTo_succ
    {bound : Nat}
    (doubled : DoubledUpTo bound)
    (escaped : EscapedUpTo bound) :
    DoubledUpTo (bound + 1) := by
  intro stream length same
  cases stream with
  | nil =>
      exact .nil
  | cons byte rest =>
      rw [List.tail_cons] at same
      by_cases isEscape : byte = 0x1B
      · subst isEscape
        obtain ⟨later, rfl, oneMore⟩ := escape_missed same
        have shorter : later.length ≤ bound :=
          Nat.le_of_succ_le (Nat.le_of_succ_le_succ length)
        obtain ⟨times, rest, rfl, doubledRest⟩ :=
          escaped later shorter oneMore
        exact .escape times doubledRest
      · by_cases isLead : IsLead byte
        · obtain ⟨later, rfl, sameLater⟩ := lead_missed isLead same
          have shorter : later.length ≤ bound :=
            Nat.le_of_succ_le (Nat.le_of_succ_le_succ length)
          exact .character isLead (doubled later shorter sameLater)
        · exact absurd same (own_not_missed isEscape (not_not.mp isLead))

/-- After ESC either a pair or doubled input follows. -/
theorem escapedUpTo_succ
    {bound : Nat}
    (doubled : DoubledUpTo (bound + 1))
    (escaped : EscapedUpTo bound) :
    EscapedUpTo (bound + 1) := by
  intro stream length same
  cases stream with
  | nil =>
      exact ⟨0, [], rfl, .nil⟩
  | cons b rest =>
      by_cases isCsi : b = 0x5B
      · rw [isCsi] at same
        exact absurd same (bracket_not_missed rest)
      · by_cases isSs3 : b = 0x4F
        · subst isSs3
          obtain ⟨later, rfl, oneMore⟩ := letter_missed same
          have shorter : later.length ≤ bound := by
            simp only [List.length_cons] at length
            omega
          obtain ⟨times, rest, rfl, doubledRest⟩ :=
            escaped later shorter oneMore
          exact ⟨times + 1, rest, rfl, doubledRest⟩
        · rw [keyReader.values_cons, next_escape_other isCsi isSs3] at same
          exact ⟨0, b :: rest, rfl,
            doubled (b :: rest) length (List.cons.inj same).2⟩

/-- Both properties hold up to every bound. -/
theorem doubledUpTo (bound : Nat) :
    DoubledUpTo bound ∧ EscapedUpTo bound := by
  induction bound with
  | zero =>
      constructor
      · intro stream length _
        rw [List.eq_nil_of_length_eq_zero (Nat.le_zero.mp length)]
        exact .nil
      · intro stream length _
        rw [List.eq_nil_of_length_eq_zero (Nat.le_zero.mp length)]
        exact ⟨0, [], rfl, .nil⟩
  | succ bound inductionHypothesis =>
      obtain ⟨doubled, escaped⟩ := inductionHypothesis
      have doubledNext := doubledUpTo_succ doubled escaped
      exact ⟨doubledNext, escapedUpTo_succ doubledNext escaped⟩

/-- The first byte is not missed exactly in doubled input. -/
theorem values_tail_iff {stream : List UInt8} :
    keyReader.values stream.tail = keyReader.values stream ↔
      Doubled stream :=
  ⟨(doubledUpTo stream.length).1 stream (Nat.le_refl _),
    values_tail_doubled⟩

/-! ## The keys after ESC -/

/--
`getch` at ESC and another byte returns ESC, and the following calls return
the keys that a fresh adapter decodes from that byte onwards.
-/
abbrev PushesBack
    (b : UInt8)
    (rest : List UInt8)
    (pendingByte : Option UInt8) : Prop :=
  (getch ⟨0x1B :: b :: rest, pendingByte⟩).1 = some (.integer 0x1B) ∧
    ∀ calls,
      keyboard.responses (getch ⟨0x1B :: b :: rest, pendingByte⟩).2
          (List.replicate calls ()) =
        keyboard.responses ⟨b :: rest, none⟩ (List.replicate calls ())

/-- A byte after ESC that starts no sequence is stored and not delivered. -/
theorem getch_escape
    {b : UInt8}
    (notCsi : b ≠ 0x5B)
    (notSs3 : b ≠ 0x4F)
    (rest : List UInt8)
    (pendingByte : Option UInt8) :
    getch ⟨0x1B :: b :: rest, pendingByte⟩ =
      (some (.integer 0x1B), ⟨rest, some b⟩) := by
  simp [getch, readByte, handleInputByte, notCsi, notSs3]

/--
The byte after ESC is delivered as if it had been pushed back exactly when it
and all that follows is doubled, so that dropping it goes unnoticed.
-/
theorem pushes_back_iff
    (b : UInt8)
    (rest : List UInt8)
    (pendingByte : Option UInt8)
    (notCsi : b ≠ 0x5B)
    (notSs3 : b ≠ 0x4F) :
    PushesBack b rest pendingByte ↔ Doubled (b :: rest) := by
  have agree :
      (∀ calls,
        keyboard.responses ⟨rest, some b⟩ (List.replicate calls ()) =
          keyboard.responses ⟨b :: rest, none⟩ (List.replicate calls ())) ↔
        keyReader.values rest = keyReader.values (b :: rest) :=
    keyReader.responses_agree_iff getch_reads getch_ends
  have missed :
      keyReader.values rest = keyReader.values (b :: rest) ↔
        Doubled (b :: rest) :=
    @values_tail_iff (b :: rest)
  unfold PushesBack
  rw [getch_escape notCsi notSs3]
  exact (and_iff_right rfl).trans (agree.trans missed)

/-- ESC typed three times gives two keys, as it does without the second. -/
theorem pushes_back_escapes :
    PushesBack 0x1B [0x1B] none ∧ Doubled [0x1B, 0x1B] := by
  have doubled : Doubled [0x1B, 0x1B] := .escape 0 .nil
  exact
    ⟨(pushes_back_iff 0x1B [0x1B] none (by decide) (by decide)).mpr doubled,
      doubled⟩

/-- After ESC, `:` and `q` the colon is never delivered. -/
theorem colon_not_pushed_back : ¬PushesBack 0x3A [0x71] none := by
  rintro ⟨_, later⟩
  exact absurd (later 1) (by decide)

end RubyOnBareMetal.TerminalAdapter
