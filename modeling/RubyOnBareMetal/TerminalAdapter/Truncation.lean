import RubyOnBareMetal.TerminalAdapter.Pushback

namespace RubyOnBareMetal.TerminalAdapter

open Foundation

/-!
# Characters that are cut short

`read_utf8_char` learns from a byte that does not continue a character that
the character has ended, and forgets that byte.  So the input is delivered
byte for byte exactly if every character that begins in it is continued as
far as it announces or as the input goes.
-/

/-- The bytes of a key; an `Integer` is a byte. -/
def Value.bytes : Value → List UInt8
  | .integer code => [UInt8.ofNat code]
  | .string bytes => bytes

/-- The bytes of all keys that repeated calls of `getch` return. -/
def delivered (adapter : Adapter) (calls : Nat) : List UInt8 :=
  (keyboard.responses adapter
    (List.replicate calls ())).reduceOption.flatMap Value.bytes

/-- Called up to the end of the input, `getch` returns every byte of it. -/
def DeliversInput (adapter : Adapter) : Prop :=
  ∀ calls,
    adapter.input.length ≤ calls →
    delivered adapter calls = adapter.input

/-- What follows a byte continues it as far as it announces. -/
abbrev Continued (byte : UInt8) (rest : List UInt8) : Prop :=
  ∀ expected ∈ expectedLength? byte,
    ∀ b ∈ rest.take (expected - 1), b &&& 0xC0 = 0x80

/-- Every character that begins is continued until the input ends. -/
def Unbroken (stream : List UInt8) : Prop :=
  ∀ before byte rest,
    stream = before ++ byte :: rest →
    Continued byte rest

/-! ## Streams without a break -/

theorem unbroken_cons
    {byte : UInt8}
    {rest : List UInt8} :
    Unbroken (byte :: rest) ↔ Continued byte rest ∧ Unbroken rest := by
  constructor
  · intro unbroken
    refine ⟨unbroken [] byte rest rfl, ?_⟩
    intro before later left split
    exact unbroken (byte :: before) later left
      (congrArg (byte :: ·) split)
  · rintro ⟨continued, unbroken⟩ before later left split
    cases before with
    | nil =>
        obtain ⟨rfl, rfl⟩ := List.cons.inj split
        exact continued
    | cons first before =>
        obtain ⟨-, restSplit⟩ := List.cons.inj split
        exact unbroken before later left restSplit

/-- Continuation bytes begin no character. -/
theorem unbroken_append
    {taken left : List UInt8}
    (continues : ∀ b ∈ taken, b &&& 0xC0 = 0x80) :
    Unbroken (taken ++ left) ↔ Unbroken left := by
  induction taken with
  | nil =>
      rfl
  | cons b taken inductionHypothesis =>
      obtain ⟨continuesNow, continuesLater⟩ :=
        List.forall_mem_cons.mp continues
      have notLead : expectedLength? b = none := by
        by_contra isLead
        exact lead_not_continues b isLead continuesNow
      have continued : Continued b (taken ++ left) := by
        simp [Continued, notLead]
      rw [List.cons_append, unbroken_cons, and_iff_right continued]
      exact inductionHypothesis continuesLater

/-! ## One key -/

/-- What the loop over the continuation bytes takes and leaves. -/
theorem readContinuation_cases
    (times : Nat)
    (stream bytes : List UInt8) :
    (∃ taken left,
      stream = taken ++ left ∧
        taken = stream.take times ∧
        (∀ b ∈ taken, b &&& 0xC0 = 0x80) ∧
        readContinuation times ⟨stream, none⟩ bytes =
          (bytes ++ taken, ⟨left, none⟩)) ∨
      ∃ taken b left,
        stream = taken ++ b :: left ∧
          b ∈ stream.take times ∧
          b &&& 0xC0 ≠ 0x80 ∧
          readContinuation times ⟨stream, none⟩ bytes =
            (bytes ++ taken, ⟨left, none⟩) := by
  induction times generalizing stream bytes with
  | zero =>
      exact .inl ⟨[], stream, rfl, by simp, by simp,
        by simp [readContinuation]⟩
  | succ times inductionHypothesis =>
      cases stream with
      | nil =>
          exact .inl ⟨[], [], rfl, by simp, by simp,
            by simp [readContinuation, readByte]⟩
      | cons b rest =>
          by_cases continues : b &&& 0xC0 = 0x80
          · have looped :
                readContinuation (times + 1) ⟨b :: rest, none⟩ bytes =
                  readContinuation times ⟨rest, none⟩ (bytes ++ [b]) := by
              simp [readContinuation, readByte, continues]
            rw [looped]
            rcases inductionHypothesis rest (bytes ++ [b]) with
              ⟨taken, left, split, all, continuesAll, read⟩ |
              ⟨taken, d, left, split, member, breaks, read⟩
            · refine .inl ⟨b :: taken, left, congrArg (b :: ·) split,
                congrArg (b :: ·) all, ?_, ?_⟩
              · exact List.forall_mem_cons.mpr ⟨continues, continuesAll⟩
              · simp [read]
            · refine .inr ⟨b :: taken, d, left, congrArg (b :: ·) split,
                List.mem_cons_of_mem b member, breaks, ?_⟩
              simp [read]
          · exact .inr ⟨[], b, rest, rfl, by simp, continues,
              by simp [readContinuation, readByte, continues]⟩

/-- A key takes its bytes from the stream; one more may get lost. -/
inductive Taken (byte : UInt8) (rest : List UInt8) : Prop where
  | whole
      (taken left : List UInt8)
      (split : rest = taken ++ left)
      (continued : Continued byte rest)
      (continues : ∀ b ∈ taken, b &&& 0xC0 = 0x80)
      (spelled : (keyReader.next byte rest).1.bytes = byte :: taken)
      (leaves : (keyReader.next byte rest).2 = left)
  | lost
      (taken : List UInt8)
      (b : UInt8)
      (left : List UInt8)
      (split : rest = taken ++ b :: left)
      (broken : ¬Continued byte rest)
      (spelled : (keyReader.next byte rest).1.bytes = byte :: taken)
      (leaves : (keyReader.next byte rest).2 = left)

/-- A byte of its own is delivered. -/
theorem ownKey_bytes (byte : UInt8) : (ownKey byte).bytes = [byte] := by
  unfold ownKey
  split <;> simp [Value.bytes]

theorem next_taken
    {byte : UInt8}
    (notEscape : byte ≠ 0x1B)
    (rest : List UInt8) :
    Taken byte rest := by
  cases announced : expectedLength? byte with
  | none =>
      have own := next_own notEscape announced rest
      exact .whole [] rest rfl (by simp [Continued, announced]) (by simp)
        (by rw [own]; exact ownKey_bytes byte) (by rw [own])
  | some expected =>
      have read := next_lead announced rest
      rcases readContinuation_cases (expected - 1) rest [byte] with
        ⟨taken, left, split, all, continues, looped⟩ |
        ⟨taken, b, left, split, member, breaks, looped⟩
      · rw [looped] at read
        refine .whole taken left split ?_ continues (by rw [read]; rfl)
          (by rw [read])
        simpa [Continued, announced, ← all] using continues
      · rw [looped] at read
        refine .lost taken b left split ?_ (by rw [read]; rfl)
          (by rw [read])
        intro continued
        exact breaks (continued expected announced b member)

/-! ## Whole streams -/

/-- The bytes that a stream is read as. -/
def spelled (stream : List UInt8) : List UInt8 :=
  (keyReader.values stream).flatMap Value.bytes

theorem spelled_cons (byte : UInt8) (rest : List UInt8) :
    spelled (byte :: rest) =
      (keyReader.next byte rest).1.bytes ++
        spelled (keyReader.next byte rest).2 := by
  rw [spelled, keyReader.values_cons, List.flatMap_cons, spelled]

/-- What of a stream is delivered, key by key. -/
inductive Delivers : List UInt8 → List UInt8 → Prop where
  | nil :
      Delivers [] []
  | whole
      {byte : UInt8}
      {taken left out : List UInt8}
      (continued : Continued byte (taken ++ left))
      (continues : ∀ b ∈ taken, b &&& 0xC0 = 0x80)
      (later : Delivers left out) :
      Delivers (byte :: (taken ++ left)) (byte :: (taken ++ out))
  | lost
      {byte b : UInt8}
      {taken left out : List UInt8}
      (broken : ¬Continued byte (taken ++ b :: left))
      (later : Delivers left out) :
      Delivers (byte :: (taken ++ b :: left)) (byte :: (taken ++ out))

/-- Every stream without ESC is delivered so. -/
theorem delivers_spelled
    {stream : List UInt8}
    (noEscape : 0x1B ∉ stream) :
    Delivers stream (spelled stream) := by
  induction length : stream.length using Nat.strongRecOn
    generalizing stream with
  | ind bound inductionHypothesis =>
      cases stream with
      | nil =>
          have empty : spelled [] = [] := by simp [spelled]
          rw [empty]
          exact .nil
      | cons byte rest =>
          obtain ⟨notEscape, restPlain⟩ :=
            not_or.mp (List.mem_cons.not.mp noEscape)
          rw [spelled_cons]
          cases next_taken (Ne.symm notEscape) rest with
          | whole taken left split continued continues read leaves =>
              subst split
              simp only [List.length_cons, List.length_append] at length
              have leftPlain : 0x1B ∉ left := fun member =>
                restPlain (List.mem_append_right taken member)
              rw [read, leaves]
              exact .whole continued continues
                (inductionHypothesis left.length (by omega) leftPlain rfl)
          | lost taken b left split broken read leaves =>
              subst split
              simp only [List.length_cons, List.length_append] at length
              have leftPlain : 0x1B ∉ left := fun member =>
                restPlain (List.mem_append_right taken
                  (List.mem_cons_of_mem b member))
              rw [read, leaves]
              exact .lost broken
                (inductionHypothesis left.length (by omega) leftPlain rfl)

/-- No byte is delivered twice. -/
theorem Delivers.length_le
    {stream out : List UInt8}
    (delivers : Delivers stream out) :
    out.length ≤ stream.length := by
  induction delivers with
  | nil =>
      exact Nat.le_refl 0
  | whole _ _ _ inductionHypothesis =>
      simp only [List.length_cons, List.length_append]
      omega
  | lost _ _ inductionHypothesis =>
      simp only [List.length_cons, List.length_append]
      omega

/-- A stream is delivered as it is exactly if it is unbroken. -/
theorem Delivers.eq_iff
    {stream out : List UInt8}
    (delivers : Delivers stream out) :
    out = stream ↔ Unbroken stream := by
  induction delivers with
  | nil =>
      simp [Unbroken]
  | whole continued continues _ inductionHypothesis =>
      rw [unbroken_cons, and_iff_right continued, unbroken_append continues,
        ← inductionHypothesis, List.cons_inj_right,
        List.append_cancel_left_eq]
  | lost broken later _ =>
      rw [unbroken_cons]
      -- the lost byte cannot be delivered by what follows it
      have few := later.length_le
      refine iff_of_false (fun same => ?_) fun unbroken => broken unbroken.1
      have sameLength := congrArg List.length same
      simp only [List.length_cons, List.length_append] at sameLength
      omega

/--
From input without ESC, the keys that `getch` returns are made of exactly its
bytes if and only if every byte that begins a character is followed by
continuation bytes up to the length it announces or the end of the input.
-/
theorem input_delivered_iff
    (stream : List UInt8)
    (pendingByte : Option UInt8)
    (noEscape : 0x1B ∉ stream) :
    DeliversInput ⟨stream, pendingByte⟩ ↔ Unbroken stream := by
  have allKeys (calls : Nat) (enough : stream.length ≤ calls) :
      delivered ⟨stream, pendingByte⟩ calls = spelled stream := by
    have fewer := keyReader.length_values_le stream
    have keys :=
      keyReader.reduceOption_responses
        (fun {adapter} => @getch_reads adapter)
        (fun {adapter} => @getch_ends adapter)
        (show (keyReader.values
            (Adapter.input ⟨stream, pendingByte⟩)).length ≤ calls from
          Nat.le_trans fewer enough)
    rw [delivered, keys, spelled]
  rw [← (delivers_spelled noEscape).eq_iff]
  constructor
  · intro delivers
    rw [← allKeys stream.length (Nat.le_refl _)]
    exact delivers stream.length (Nat.le_refl _)
  · intro same calls enough
    rw [allKeys calls enough, same]

/-- A character that the input cuts short is delivered as far as it goes. -/
theorem input_delivered_truncated :
    DeliversInput ⟨[0x41, 0xE3, 0x81], none⟩ ∧
      Unbroken [0x41, 0xE3, 0x81] := by
  have unbroken : Unbroken [0x41, 0xE3, 0x81] := by
    simp only [unbroken_cons]
    exact ⟨by decide +kernel, by decide +kernel, by decide +kernel,
      by simp [Unbroken]⟩
  have noEscape : 0x1B ∉ [(0x41 : UInt8), 0xE3, 0x81] := by
    decide +kernel
  exact ⟨(input_delivered_iff [0x41, 0xE3, 0x81] none noEscape).mpr unbroken,
    unbroken⟩

/-- The letter after a first byte of two is never delivered. -/
theorem input_swallowed : ¬DeliversInput ⟨[0xC3, 0x41], none⟩ := by
  intro delivers
  exact absurd (delivers 2 (Nat.le_refl 2)) (by decide)

end RubyOnBareMetal.TerminalAdapter
