import RubyOnBareMetal.UefiConsole.Resync

namespace RubyOnBareMetal.UefiConsole

open Foundation

/-!
# Control sequences the console does not implement

A terminal must absorb every control sequence of the standard, known or not.
`parse_byte` lists the bytes that keep it inside a sequence by hand, and the
list lacks two parameter bytes and all intermediate bytes but the space.
-/

/-- A control sequence of the standard after its `ESC [`. -/
structure StandardSequence where
  parameterBytes : List UInt8
  intermediateBytes : List UInt8
  final : UInt8
  parameterRange : ∀ c ∈ parameterBytes, 0x30 ≤ c ∧ c ≤ 0x3F
  intermediateRange : ∀ c ∈ intermediateBytes, 0x20 ≤ c ∧ c ≤ 0x2F
  finalRange : 0x40 ≤ final ∧ final ≤ 0x7E

/-- What stands between `ESC [` and the final byte. -/
def StandardSequence.body (sequence : StandardSequence) : List UInt8 :=
  sequence.parameterBytes ++ sequence.intermediateBytes

/-- The bytes of a sequence. -/
def StandardSequence.bytes (sequence : StandardSequence) : List UInt8 :=
  escapeByte :: bracket :: (sequence.body ++ [sequence.final])

/--
Nothing of a stream is printed, and after a first byte the parser is in
`ST_NORMAL` exactly at its end.
-/
def Absorbed (console : Console) (stream : List UInt8) : Prop :=
  (∀ buf, .outputString buf ∉ parser.output console stream) ∧
    ∀ earlier later,
      stream = earlier ++ later →
      earlier ≠ [] →
      ((parser.run console earlier).ansiState = .normal ↔ later = [])

/-! ## Nothing is printed outside `ST_NORMAL` -/

/-- Executing a sequence prints nothing. -/
theorem outputString_notMem_ansiExec
    (console : Console)
    (final : UInt8)
    (buf : List UInt16) :
    .outputString buf ∉ (ansiExec console final).calls := by
  have noPush := ansiPushParam_calls console
  unfold ansiExec
  dsimp only
  cases (ansiPushParam console).console.conOut? with
  | none =>
      simp [noPush]
  | some out =>
      dsimp only
      split
      · simp
      · split
        · split <;> simp
        · split <;> simp [noPush]

/-- Only a byte other than escape in `ST_NORMAL` can be printed. -/
theorem outputString_notMem_step
    {console : Console}
    {c : UInt8}
    (notText : console.ansiState = .normal → c = escapeByte)
    (buf : List UInt16) :
    .outputString buf ∉ (parser.step console c).1 := by
  cases step_cases console c with
  | text state notEscape _ =>
      exact absurd (notText state) notEscape
  | silent _ _ noCalls _ =>
      simp [noCalls]
  | executed _ _ stepped =>
      rw [stepped]
      exact outputString_notMem_ansiExec console c buf

/-- A stream whose earlier parts never reach `ST_NORMAL` prints nothing. -/
theorem outputString_notMem_output
    {console : Console}
    {stream : List UInt8}
    (inside :
      ∀ earlier c later,
        stream = earlier ++ c :: later →
        (parser.run console earlier).ansiState = .normal →
        c = escapeByte)
    (buf : List UInt16) :
    .outputString buf ∉ parser.output console stream := by
  induction stream generalizing console with
  | nil =>
      simp
  | cons c rest inductionHypothesis =>
      rw [Machine.output_cons, List.mem_append, not_or]
      constructor
      · exact outputString_notMem_step (inside [] c rest rfl) buf
      · apply inductionHypothesis
        intro earlier d later split
        exact inside (c :: earlier) d later (congrArg (c :: ·) split)

/-! ## The bytes that stay inside -/

/-- The parser stays inside a sequence for exactly the bytes it knows. -/
theorem foldl_ne_normal_iff (body : List UInt8) :
    (∀ earlier later,
        body = earlier ++ later →
        earlier.foldl .next AnsiState.csi ≠ .normal) ↔
      ∀ c ∈ body, BodyByte c := by
  constructor
  · intro inside
    induction body with
    | nil =>
        simp
    | cons c rest inductionHypothesis =>
        have known : BodyByte c := by
          by_contra unknown
          have left := inside [c] rest rfl
          simp [AnsiState.next, unknown] at left
        refine List.forall_mem_cons.mpr ⟨known, inductionHypothesis ?_⟩
        intro earlier later split
        have still := inside (c :: earlier) later (congrArg (c :: ·) split)
        rwa [List.foldl_cons, AnsiState.next, if_pos known] at still
  · rintro bodyBytes earlier later rfl
    have earlierBytes : ∀ c ∈ earlier, BodyByte c :=
      fun c member => bodyBytes c (List.mem_append_left later member)
    rw [foldl_body earlierBytes]
    simp

/-- Of the parameter bytes the parser does not know `:` and `<`. -/
theorem bodyByte_parameter_iff
    {c : UInt8}
    (range : 0x30 ≤ c ∧ c ≤ 0x3F) :
    BodyByte c ↔ c ≠ 0x3A ∧ c ≠ 0x3C := by
  have bounds : 48 ≤ c.toNat ∧ c.toNat ≤ 63 := range
  unfold BodyByte
  rw [isDigit_iff, eq_semicolon_iff, isSkipped_iff, Ne, Ne, eq_iff_toNat,
    eq_iff_toNat]
  change _ ↔ ¬c.toNat = 58 ∧ ¬c.toNat = 60
  omega

/-- Of the intermediate bytes it knows the space only. -/
theorem bodyByte_intermediate_iff
    {c : UInt8}
    (range : 0x20 ≤ c ∧ c ≤ 0x2F) :
    BodyByte c ↔ c = 0x20 := by
  have bounds : 32 ≤ c.toNat ∧ c.toNat ≤ 47 := range
  unfold BodyByte
  rw [isDigit_iff, eq_semicolon_iff, isSkipped_iff, eq_iff_toNat]
  change _ ↔ c.toNat = 32
  omega

/-- The sequences whose bodies the parser knows. -/
theorem StandardSequence.bodyBytes_iff (sequence : StandardSequence) :
    (∀ c ∈ sequence.body, BodyByte c) ↔
      (∀ c ∈ sequence.parameterBytes, c ≠ 0x3A ∧ c ≠ 0x3C) ∧
        ∀ c ∈ sequence.intermediateBytes, c = 0x20 := by
  rw [body, List.forall_mem_append]
  exact and_congr
    (forall₂_congr fun c member =>
      bodyByte_parameter_iff (sequence.parameterRange c member))
    (forall₂_congr fun c member =>
      bodyByte_intermediate_iff (sequence.intermediateRange c member))

/-- The final byte leaves the sequence. -/
theorem StandardSequence.final_leaves (sequence : StandardSequence) :
    AnsiState.csi.next sequence.final = .normal := by
  have final : isFinal sequence.final :=
    decide_eq_true sequence.finalRange
  obtain ⟨notDigit, notSeparator, notSkipped⟩ := isFinal_ne final
  have ends : ¬BodyByte sequence.final :=
    not_or.mpr ⟨notDigit, not_or.mpr ⟨notSeparator, notSkipped⟩⟩
  rw [AnsiState.next, if_neg ends]

/-! ## Whole sequences -/

/-- Inside a sequence `ST_NORMAL` is met at its end only. -/
theorem foldl_normal_at_end_iff
    {body : List UInt8}
    {final : UInt8}
    (leaves : AnsiState.csi.next final = .normal) :
    (∀ earlier later,
        body ++ [final] = earlier ++ later →
        (earlier.foldl .next AnsiState.csi = .normal ↔ later = [])) ↔
      ∀ c ∈ body, BodyByte c := by
  rw [← foldl_ne_normal_iff]
  constructor
  · rintro atEnd earlier later rfl normal
    have nothingLeft :=
      (atEnd earlier (later ++ [final]) (List.append_assoc ..)).mp normal
    simp at nothingLeft
  · intro inside earlier later split
    rcases List.eq_nil_or_concat later with rfl | ⟨rest, last, rfl⟩
    · have stayed := (foldl_ne_normal_iff body).mp inside
      rw [List.append_nil] at split
      rw [← split, List.foldl_append, foldl_body stayed]
      exact iff_of_true leaves rfl
    · rw [List.concat_eq_append, ← List.append_assoc] at split
      obtain ⟨bodySplit, -⟩ := List.append_inj' split rfl
      exact iff_of_false (inside earlier rest bodySplit) (by simp)

/-- After `ESC [` the parser is inside a sequence. -/
theorem run_opened
    {console : Console}
    (normal : console.ansiState = .normal)
    (rest : List UInt8) :
    (parser.run console (escapeByte :: bracket :: rest)).ansiState =
      rest.foldl .next AnsiState.csi := by
  rw [run_ansiState, normal]
  rfl

/--
From `ST_NORMAL` the bytes of a control sequence of the standard are absorbed
if and only if neither `:` nor `<` is among its parameter bytes and all its
intermediate bytes are spaces.
-/
theorem standard_sequence_absorbed_iff
    (console : Console)
    (sequence : StandardSequence)
    (normal : console.ansiState = .normal) :
    Absorbed console sequence.bytes ↔
      (∀ c ∈ sequence.parameterBytes, c ≠ 0x3A ∧ c ≠ 0x3C) ∧
        ∀ c ∈ sequence.intermediateBytes, c = 0x20 := by
  rw [← sequence.bodyBytes_iff,
    ← foldl_normal_at_end_iff sequence.final_leaves]
  constructor
  · rintro ⟨-, atEnd⟩ earlier later split
    rw [← run_opened normal]
    exact atEnd (escapeByte :: bracket :: earlier) later
      (congrArg (escapeByte :: bracket :: ·) split) (by simp)
  · intro insideAtEnd
    have atEnd (earlier later : List UInt8)
        (split : sequence.bytes = earlier ++ later)
        (started : earlier ≠ []) :
        (parser.run console earlier).ansiState = .normal ↔ later = [] := by
      rcases earlier with - | ⟨first, - | ⟨second, earlier⟩⟩
      · exact absurd rfl started
      · obtain ⟨rfl, rfl⟩ := List.cons.inj split
        rw [run_ansiState, normal]
        exact iff_of_false (by decide) (by simp)
      · obtain ⟨rfl, afterFirst⟩ := List.cons.inj split
        obtain ⟨rfl, afterSecond⟩ := List.cons.inj afterFirst
        rw [run_opened normal]
        exact insideAtEnd earlier later afterSecond
    refine ⟨outputString_notMem_output ?_, atEnd⟩
    intro earlier c later split backToNormal
    cases earlier with
    | nil =>
        exact (List.cons.inj split).1.symm
    | cons first earlier =>
        have ended :=
          (atEnd (first :: earlier) (c :: later) split (by simp)).mp
            backToNormal
        cases ended

/-- `ESC [ 4 ! p`, a soft reset with a parameter. -/
def softReset : StandardSequence where
  parameterBytes := [0x34]
  intermediateBytes := [0x21]
  final := 0x70
  parameterRange := by decide +kernel
  intermediateRange := by decide +kernel
  finalRange := by decide +kernel

/-- `ESC [ ? 2 5 SP h`, absorbed as a whole. -/
theorem standard_sequence_absorbed_private :
    Absorbed (.boot (some ⟨some ⟨some 7⟩⟩) fun _ => 0xCC)
      [0x1B, 0x5B, 0x3F, 0x32, 0x35, 0x20, 0x68] :=
  (standard_sequence_absorbed_iff
    (.boot (some ⟨some ⟨some 7⟩⟩) fun _ => 0xCC)
    {
      parameterBytes := [0x3F, 0x32, 0x35]
      intermediateBytes := [0x20]
      final := 0x68
      parameterRange := by decide +kernel
      intermediateRange := by decide +kernel
      finalRange := by decide +kernel
    }
    rfl).mpr (by decide +kernel)

/-- The `!` of a soft reset ends the sequence, and its `p` is printed. -/
theorem softReset_not_absorbed :
    ¬Absorbed (.boot (some ⟨some ⟨some 7⟩⟩) fun _ => 0xCC)
      softReset.bytes := by
  intro absorbed
  exact absorbed.1 [0x70, 0] (by decide +kernel)

end RubyOnBareMetal.UefiConsole
