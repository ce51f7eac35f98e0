import Mathlib.Data.List.Induction
import RubyOnBareMetal.UefiConsole.Indices

namespace RubyOnBareMetal.UefiConsole

open Foundation

/-!
# Control sequences after an interrupted one

An escape byte opens a sequence only in `ST_NORMAL`.  In `ST_ESC` and
`ST_CSI` it is taken for a byte that ends the sequence before, and what
follows it is printed.  So a control sequence is executed exactly after
streams that do not stop inside an escape sequence.
-/

/-! ## Whole streams -/

/-- The bytes that do not end a control sequence. -/
def BodyByte (c : UInt8) : Prop :=
  isDigit c ∨ c = semicolon ∨ isSkipped c

instance (c : UInt8) : Decidable (BodyByte c) :=
  inferInstanceAs (Decidable (isDigit c ∨ c = semicolon ∨ isSkipped c))

/-- The bytes from one `ST_NORMAL` to the next, garbled or not. -/
inductive Stretch where
  | plain (c : UInt8) (notEscape : c ≠ escapeByte)
  | escape (c : UInt8) (notBracket : c ≠ bracket)
  | control
      (body : List UInt8)
      (last : UInt8)
      (bodyBytes : ∀ c ∈ body, BodyByte c)
      (ends : ¬BodyByte last)

/-- The bytes of a stretch. -/
def Stretch.bytes : Stretch → List UInt8
  | .plain c _ => [c]
  | .escape c _ => [escapeByte, c]
  | .control body last _ _ => escapeByte :: bracket :: (body ++ [last])

/-- A stream that does not stop inside an escape sequence. -/
def Whole (stream : List UInt8) : Prop :=
  ∃ stretches : List Stretch, stream = stretches.flatMap Stretch.bytes

/-! ## The state alone -/

/-- The state after a byte. -/
def AnsiState.next : AnsiState → UInt8 → AnsiState
  | .normal, c => if c = escapeByte then .esc else .normal
  | .esc, c => if c = bracket then .csi else .normal
  | .csi, c => if BodyByte c then .csi else .normal

/-- A push keeps the state. -/
theorem ansiPushParam_ansiState (console : Console) :
    (ansiPushParam console).console.ansiState = console.ansiState := by
  unfold ansiPushParam
  dsimp only
  split <;> rfl

/-- Only the state and the byte decide the next state. -/
theorem step_ansiState (console : Console) (c : UInt8) :
    (parser.step console c).2.ansiState = console.ansiState.next c := by
  change (parseByte console c).console.ansiState = _
  cases state : console.ansiState with
  | normal =>
      simp only [parseByte, state, AnsiState.next]
      split
      · rfl
      · exact state
  | esc =>
      simp only [parseByte, state, AnsiState.next]
      split <;> rfl
  | csi =>
      simp only [parseByte, state, AnsiState.next]
      split
      · next digit =>
          rw [if_pos (show BodyByte c from .inl digit)]
      · split
        · next separator =>
            rw [if_pos (show BodyByte c from .inr (.inl separator)),
              ansiPushParam_ansiState]
            exact state
        · split
          · next skipped =>
              rw [if_pos (show BodyByte c from .inr (.inr skipped))]
              exact state
          · next notDigit notSeparator notSkipped =>
              have ends : ¬BodyByte c :=
                not_or.mpr ⟨notDigit, not_or.mpr ⟨notSeparator, notSkipped⟩⟩
              rw [if_neg ends]
              split <;> rfl

/-- So does a stream. -/
theorem run_ansiState (console : Console) (stream : List UInt8) :
    (parser.run console stream).ansiState =
      stream.foldl .next console.ansiState := by
  induction stream generalizing console with
  | nil =>
      rfl
  | cons c rest inductionHypothesis =>
      rw [Machine.run_cons, inductionHypothesis, step_ansiState,
        List.foldl_cons]

/-- The body of a control sequence stays inside it. -/
theorem foldl_body
    {body : List UInt8}
    (bodyBytes : ∀ c ∈ body, BodyByte c) :
    body.foldl .next AnsiState.csi = .csi := by
  induction body with
  | nil =>
      rfl
  | cons c rest inductionHypothesis =>
      obtain ⟨first, restBytes⟩ := List.forall_mem_cons.mp bodyBytes
      rw [List.foldl_cons, AnsiState.next, if_pos first]
      exact inductionHypothesis restBytes

/-- A stretch leads back to `ST_NORMAL`. -/
theorem foldl_stretch (stretch : Stretch) :
    stretch.bytes.foldl .next AnsiState.normal = .normal := by
  cases stretch with
  | plain c notEscape =>
      simp [Stretch.bytes, AnsiState.next, notEscape]
  | escape c notBracket =>
      simp [Stretch.bytes, AnsiState.next, notBracket]
  | control body last bodyBytes ends =>
      simp [Stretch.bytes, AnsiState.next, foldl_body bodyBytes, ends]

/-- Bytes other than an escape stay in `ST_NORMAL`. -/
theorem foldl_plain
    {stream : List UInt8}
    (noEscape : escapeByte ∉ stream) :
    stream.foldl .next AnsiState.normal = .normal := by
  induction stream with
  | nil =>
      rfl
  | cons c rest inductionHypothesis =>
      obtain ⟨first, restPlain⟩ :=
        not_or.mp (List.mem_cons.not.mp noEscape)
      rw [List.foldl_cons, AnsiState.next, if_neg (Ne.symm first)]
      exact inductionHypothesis restPlain

/-- What a stream may leave open in each state. -/
def LeftOpen : AnsiState → List UInt8 → Prop
  | .normal, rest => rest = []
  | .esc, rest => rest = [escapeByte]
  | .csi, rest =>
      ∃ body,
        (∀ c ∈ body, BodyByte c) ∧ rest = escapeByte :: bracket :: body

/-- A stream consists of stretches and of what the state has left open. -/
theorem stream_stretches (stream : List UInt8) :
    ∃ (stretches : List Stretch) (rest : List UInt8),
      stream = stretches.flatMap Stretch.bytes ++ rest ∧
        LeftOpen (stream.foldl .next AnsiState.normal) rest := by
  induction stream using List.reverseRecOn with
  | nil =>
      exact ⟨[], [], rfl, rfl⟩
  | append_singleton earlier c inductionHypothesis =>
      obtain ⟨stretches, rest, rfl, leftOpen⟩ := inductionHypothesis
      rw [List.foldl_append, List.foldl_cons, List.foldl_nil]
      -- a stretch that the byte completes joins the others
      have completed
          (stretch : Stretch)
          (bytes : stretch.bytes = rest ++ [c]) :
          ∃ (stretches' : List Stretch) (rest' : List UInt8),
            stretches.flatMap Stretch.bytes ++ rest ++ [c] =
                stretches'.flatMap Stretch.bytes ++ rest' ∧
              LeftOpen .normal rest' :=
        ⟨stretches ++ [stretch], [], by simp [bytes], rfl⟩
      revert leftOpen
      cases (stretches.flatMap Stretch.bytes ++ rest).foldl .next
          AnsiState.normal with
      | normal =>
          rintro rfl
          by_cases escape : c = escapeByte
          · rw [AnsiState.next, if_pos escape]
            exact ⟨stretches, [c], by simp, congrArg (fun b => [b]) escape⟩
          · rw [AnsiState.next, if_neg escape]
            exact completed (.plain c escape) rfl
      | esc =>
          rintro rfl
          by_cases opens : c = bracket
          · rw [AnsiState.next, if_pos opens, opens]
            exact ⟨stretches, [escapeByte, bracket], by simp, [], by simp,
              rfl⟩
          · rw [AnsiState.next, if_neg opens]
            exact completed (.escape c opens) rfl
      | csi =>
          rintro ⟨body, bodyBytes, rfl⟩
          by_cases continues : BodyByte c
          · rw [AnsiState.next, if_pos continues]
            refine ⟨stretches, escapeByte :: bracket :: (body ++ [c]),
              by simp, body ++ [c], ?_, rfl⟩
            simpa [or_imp, forall_and] using ⟨bodyBytes, continues⟩
          · rw [AnsiState.next, if_neg continues]
            exact completed (.control body c bodyBytes continues) rfl

/-- `ST_NORMAL` is the state after exactly the whole streams. -/
theorem foldl_normal_iff (stream : List UInt8) :
    stream.foldl .next AnsiState.normal = .normal ↔ Whole stream := by
  constructor
  · intro normal
    obtain ⟨stretches, rest, split, leftOpen⟩ := stream_stretches stream
    rw [normal] at leftOpen
    cases leftOpen
    exact ⟨stretches, by rw [split, List.append_nil]⟩
  · rintro ⟨stretches, rfl⟩
    induction stretches with
    | nil =>
        rfl
    | cons stretch rest inductionHypothesis =>
        rw [List.flatMap_cons, List.foldl_append, foldl_stretch]
        exact inductionHypothesis

/-! ## What a byte does -/

/-- A push makes no call. -/
theorem ansiPushParam_calls (console : Console) :
    (ansiPushParam console).calls = [] := by
  unfold ansiPushParam
  dsimp only
  split <;> rfl

/-- A byte is printed, is waited out, or ends and executes a sequence. -/
inductive StepCase (console : Console) (c : UInt8) : Prop where
  | text
      (state : console.ansiState = .normal)
      (notEscape : c ≠ escapeByte)
      (stepped : parser.step console c = (rawPutc console c, console))
  | silent
      (notText : console.ansiState = .normal → c = escapeByte)
      (notFinal : console.ansiState = .csi → ¬isFinal c)
      (noCalls : (parser.step console c).1 = [])
      (sameOutput :
        (parser.step console c).2.conOut? = console.conOut?)
  | executed
      (state : console.ansiState = .csi)
      (final : isFinal c)
      (stepped :
        parser.step console c =
          ((ansiExec console c).calls,
            { (ansiExec console c).console with ansiState := .normal }))

/-- Every step is one of the three. -/
theorem step_cases (console : Console) (c : UInt8) :
    StepCase console c := by
  cases state : console.ansiState with
  | normal =>
      by_cases escape : c = escapeByte
      · subst escape
        have stepped := step_escape state
        exact .silent (fun _ => rfl) (by simp [state]) (by rw [stepped])
          (by rw [stepped]; rfl)
      · exact .text state escape
          (by simp only [parser, parseByte, state, if_neg escape])
  | esc =>
      have stepped :
          (parseByte console c).calls = [] ∧
            (parseByte console c).console.conOut? = console.conOut? := by
        simp only [parseByte, state]
        split <;> exact ⟨rfl, rfl⟩
      exact .silent (by simp [state]) (by simp [state]) stepped.1 stepped.2
  | csi =>
      by_cases final : isFinal c
      · exact .executed state final (step_final state final)
      · have stepped :
            (parseByte console c).calls = [] ∧
              (parseByte console c).console.conOut? = console.conOut? := by
          simp only [parseByte, state, final, Bool.false_eq_true, if_false]
          split
          · exact ⟨rfl, rfl⟩
          · split
            · exact ⟨ansiPushParam_calls console,
                (ansiPushParam_counts console).2⟩
            · split <;> exact ⟨rfl, rfl⟩
        exact .silent (by simp [state]) (fun _ => final) stepped.1 stepped.2

/-! ## The output protocol -/

/-- Executing a sequence keeps a protocol, and a missing one missing. -/
theorem ansiExec_conOut_none (console : Console) (final : UInt8) :
    (ansiExec console final).console.conOut? = none ↔
      console.conOut? = none := by
  have pushed := (ansiPushParam_counts console).2
  unfold ansiExec
  cases found : console.conOut? with
  | none =>
      simp only [pushed, found]
  | some out =>
      simp only [pushed, found]
      split
      · simp only [pushed, found]
      · split
        · simp only [pushed, found]
        · split
          · simp [Console.conOut?]
          · simp only [pushed, found]

/-- No byte removes the protocol or brings one. -/
theorem step_conOut_none (console : Console) (c : UInt8) :
    (parser.step console c).2.conOut? = none ↔ console.conOut? = none := by
  cases step_cases console c with
  | text _ _ stepped =>
      rw [stepped]
  | silent _ _ _ sameOutput =>
      rw [sameOutput]
  | executed _ _ stepped =>
      rw [stepped]
      exact ansiExec_conOut_none console c

/-- Nor does a stream. -/
theorem run_conOut_none (console : Console) (stream : List UInt8) :
    (parser.run console stream).conOut? = none ↔
      console.conOut? = none := by
  induction stream generalizing console with
  | nil =>
      rfl
  | cons c rest inductionHypothesis =>
      rw [Machine.run_cons, inductionHypothesis, step_conOut_none]

/-- Without a protocol a byte has no effect on the screen. -/
theorem step_silent
    {console : Console}
    (missing : console.conOut? = none)
    (c : UInt8) :
    (parser.step console c).1 = [] := by
  cases step_cases console c with
  | text _ _ stepped =>
      simp only [stepped, rawPutc, missing]
  | silent _ _ noCalls _ =>
      exact noCalls
  | executed _ _ stepped =>
      have noPush := ansiPushParam_calls console
      simp only [stepped, ansiExec, (ansiPushParam_counts console).2,
        missing, noPush]

/-- Nor has a stream. -/
theorem output_silent
    {console : Console}
    (missing : console.conOut? = none)
    (stream : List UInt8) :
    parser.output console stream = [] := by
  induction stream generalizing console with
  | nil =>
      rfl
  | cons c rest inductionHypothesis =>
      have stillMissing := (step_conOut_none console c).mpr missing
      rw [Machine.output_cons, step_silent missing,
        inductionHypothesis stillMissing]
      rfl

/-! ## A sequence after any stream -/

/--
The sequence makes the calls of its own parameters, prints nothing and leads
back to `ST_NORMAL`.
-/
def Resynchronises
    (console : Console)
    (sequence : ControlSequence) : Prop :=
  parser.output console (Token.control sequence).encode =
      (match console.conOut? with
      | none => []
      | some out =>
          controlCalls out (parameters sequence.body) sequence.final) ∧
    (parser.run console (Token.control sequence).encode).ansiState =
      .normal

/-- Outside `ST_NORMAL` an escape byte only ends what came before. -/
theorem step_aborts
    {console : Console}
    (broken : console.ansiState ≠ .normal) :
    parser.step console escapeByte =
      ([], { console with ansiState := .normal }) := by
  cases state : console.ansiState with
  | normal =>
      exact absurd state broken
  | esc =>
      simp only [parser, parseByte, state]
      rfl
  | csi =>
      simp only [parser, parseByte, state]
      rfl

/-- A control sequence prints no text. -/
theorem outputString_notMem_controlCalls
    (out : TextOutput)
    (params : List (Option Nat))
    (final : UInt8)
    (buf : List UInt16) :
    .outputString buf ∉ controlCalls out params final := by
  unfold controlCalls
  split
  · simp
  · split
    · split <;> simp
    · split <;> simp

/-- The bytes of a sequence after the first are no escapes. -/
theorem escapeByte_notMem_tail (sequence : ControlSequence) :
    escapeByte ∉ bracket :: (sequence.body ++ [sequence.final]) := by
  have notBody : ¬BodyByte escapeByte := by decide
  have notFinal : ¬isFinal escapeByte := by decide
  intro member
  rcases List.mem_cons.mp member with opens | member
  · exact absurd opens (by decide)
  · rcases List.mem_append.mp member with inBody | isLast
    · exact notBody (sequence.bodyBytes _ inBody)
    · rw [List.mem_singleton.mp isLast] at notFinal
      exact notFinal sequence.finalByte

/-- Outside `ST_NORMAL` the bracket of a sequence is printed. -/
theorem broken_prints
    {console : Console}
    {out : TextOutput}
    (broken : console.ansiState ≠ .normal)
    (present : console.conOut? = some out)
    (sequence : ControlSequence) :
    .outputString [bracket.toUInt16, 0] ∈
      parser.output console (Token.control sequence).encode := by
  have printed :
      parser.step { console with ansiState := .normal } bracket =
        ([.outputString [bracket.toUInt16, 0]],
          { console with ansiState := .normal }) := by
    have sameOut :
        Console.conOut? { console with ansiState := .normal } = some out :=
      present
    simp only [parser, parseByte, rawPutc, sameOut]
    rfl
  rw [Token.encode, Machine.output_cons, step_aborts broken,
    Machine.output_cons, printed]
  simp

/-- A sequence is executed exactly in `ST_NORMAL`, if it can be seen. -/
theorem resynchronises_iff
    (console : Console)
    (sequence : ControlSequence) :
    Resynchronises console sequence ↔
      console.ansiState = .normal ∨ console.conOut? = none := by
  by_cases state : console.ansiState = .normal
  · obtain ⟨sameCalls, idle⟩ := control_follows ⟨state, rfl⟩ sequence
    refine iff_of_true ⟨?_, idle.state⟩ (.inl state)
    rw [sameCalls]
    cases console.conOut? <;> rfl
  · cases present : console.conOut? with
    | none =>
        refine iff_of_true ⟨?_, ?_⟩ (.inr rfl)
        · rw [output_silent present, present]
        · rw [Token.encode, Machine.run_cons, step_aborts state,
            run_ansiState]
          exact foldl_plain (escapeByte_notMem_tail sequence)
    | some out =>
        refine iff_of_false ?_ (by simp [state])
        rintro ⟨sameCalls, -⟩
        have printed := broken_prints state present sequence
        rw [sameCalls, present] at printed
        exact outputString_notMem_controlCalls _ _ _ _ printed

/--
After any stream from boot a complete control sequence is executed with
exactly its own parameters, and nothing of it printed, if and only if the
stream does not stop inside an escape sequence or there is no protocol to
print on.
-/
theorem control_resynchronises_iff
    (uefiSystemTable : Option SystemTable)
    (beside : Int32 → Int32)
    (stream : List UInt8)
    (sequence : ControlSequence) :
    Resynchronises
        (parser.run (.boot uefiSystemTable beside) stream) sequence ↔
      Whole stream ∨
        (Console.boot uefiSystemTable beside).conOut? = none := by
  rw [resynchronises_iff, run_ansiState, run_conOut_none]
  exact or_congr_left (foldl_normal_iff stream)

/-- `m` may end a control sequence. -/
theorem finalSgr_isFinal : isFinal finalSgr :=
  rfl

/-- `ESC [ 3 1 ; 4 4 m`, with two parameters and nothing between them. -/
def plainRedOnBlue : ControlSequence where
  body := [0x33, 0x31, 0x3B, 0x34, 0x34]
  final := finalSgr
  bodyBytes := by
    simp [isDigit, isSkipped]
  finalByte := finalSgr_isFinal
  fewParameters := by decide +kernel
  smallParameters := by decide +kernel

/-- A lone escape byte spoils the sequence after it: `[31;44m` is printed. -/
theorem plainRedOnBlue_printed :
    ¬Resynchronises
      (parser.run (.boot (some ⟨some ⟨some 7⟩⟩) fun _ => 0xCC)
        [escapeByte])
      plainRedOnBlue := by
  intro resynchronised
  exact absurd resynchronised.1 (by decide +kernel)

end RubyOnBareMetal.UefiConsole
