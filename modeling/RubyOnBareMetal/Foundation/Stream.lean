import RubyOnBareMetal.Foundation.Machine

namespace Foundation.Machine

/-!
# Machines fed by a stream

A machine whose responses are lists of effects has an output, the effects of
a whole stream in order.  The output does not depend on how the stream is cut
into calls, and a machine that acts like a reference on the encoding of
every token acts like it on every stream of tokens.
-/

variable {State Request Effect : Type}
variable (machine : Machine State Request (List Effect))

/-- The effects of a stream, in order. -/
def output (state : State) (stream : List Request) : List Effect :=
  (machine.responses state stream).flatten

@[simp] theorem output_nil (state : State) :
    machine.output state [] = [] :=
  rfl

@[simp] theorem output_cons
    (state : State)
    (request : Request)
    (rest : List Request) :
    machine.output state (request :: rest) =
      (machine.step state request).1 ++
        machine.output (machine.step state request).2 rest :=
  rfl

/-- The output of a concatenation is concatenated. -/
theorem output_append
    (state : State)
    (first second : List Request) :
    machine.output state (first ++ second) =
      machine.output state first ++
        machine.output (machine.run state first) second := by
  simp [output, responses_append]

/-! ## Calls that feed several requests -/

/-- The machine each of whose calls feeds a list of requests. -/
def fed {Call : Type} (requests : Call → List Request) :
    Machine State Call (List Effect) where
  step state call :=
    (machine.output state (requests call),
      machine.run state (requests call))
  admits state call := machine.Admissible state (requests call)

/-- Calls lead where the requests they feed lead. -/
theorem run_fed
    {Call : Type}
    (requests : Call → List Request)
    (state : State)
    (calls : List Call) :
    (machine.fed requests).run state calls =
      machine.run state (calls.flatMap requests) := by
  induction calls generalizing state with
  | nil =>
      rfl
  | cons call rest inductionHypothesis =>
      rw [List.flatMap_cons, run_append]
      exact inductionHypothesis (machine.run state (requests call))

/-- Calls have the effects of the requests they feed. -/
theorem output_fed
    {Call : Type}
    (requests : Call → List Request)
    (state : State)
    (calls : List Call) :
    (machine.fed requests).output state calls =
      machine.output state (calls.flatMap requests) := by
  induction calls generalizing state with
  | nil =>
      rfl
  | cons call rest inductionHypothesis =>
      rw [List.flatMap_cons, output_append]
      exact congrArg (machine.output state (requests call) ++ ·)
        (inductionHypothesis (machine.run state (requests call)))

/-! ## Tokens -/

/--
If the encoding of every token takes each state that stands for a reference
state to one that stands for the next, with the effects of the reference,
then so do the concatenated encodings of any tokens.
-/
theorem output_tokens
    {Token Abstract : Type}
    (reference : Machine Abstract Token (List Effect))
    (encode : Token → List Request)
    {standsFor : State → Abstract → Prop}
    (simulates :
      ∀ {state abstract} token,
        standsFor state abstract →
        machine.output state (encode token) =
            (reference.step abstract token).1 ∧
          standsFor (machine.run state (encode token))
            (reference.step abstract token).2)
    {state : State}
    {abstract : Abstract}
    (initially : standsFor state abstract)
    (tokens : List Token) :
    machine.output state (tokens.flatMap encode) =
        reference.output abstract tokens ∧
      standsFor (machine.run state (tokens.flatMap encode))
        (reference.run abstract tokens) := by
  induction tokens generalizing state abstract with
  | nil =>
      exact ⟨rfl, initially⟩
  | cons token rest inductionHypothesis =>
      obtain ⟨sameOutput, standsLater⟩ := simulates token initially
      obtain ⟨sameRest, standsLast⟩ := inductionHypothesis standsLater
      rw [List.flatMap_cons, output_append, run_append, output_cons,
        sameOutput, sameRest]
      exact ⟨rfl, standsLast⟩

/-! ## Guards -/

/--
If from the states of an invariant the effects of a step are all good exactly
when a promise is kept, and then the invariant is kept as well, the effects
of a stream are all good exactly when it keeps the promise.
-/
theorem output_good_iff_of_invariant
    {invariant : State → Prop}
    {promise : State → Request → Prop}
    {good : Effect → Prop}
    (stepGood :
      ∀ {state request},
        invariant state →
        ((∀ effect ∈ (machine.step state request).1, good effect) ↔
          promise state request))
    (preserved :
      ∀ {state request},
        invariant state →
        promise state request →
        invariant (machine.step state request).2)
    {state : State}
    {stream : List Request}
    (initially : invariant state) :
    (∀ effect ∈ machine.output state stream, good effect) ↔
      Admissible ⟨machine.step, promise⟩ state stream := by
  induction stream generalizing state with
  | nil =>
      simp [Admissible]
  | cons request rest inductionHypothesis =>
      rw [output_cons, List.forall_mem_append, stepGood initially]
      exact and_congr_right fun promised =>
        inductionHypothesis (preserved initially promised)

/--
If the effects of a step are all good exactly when the step is admitted, the
effects of a stream are all good exactly when the stream is admissible.
-/
theorem output_good_iff
    {good : Effect → Prop}
    (stepGood :
      ∀ {state request},
        (∀ effect ∈ (machine.step state request).1, good effect) ↔
          machine.admits state request)
    {state : State}
    {stream : List Request} :
    (∀ effect ∈ machine.output state stream, good effect) ↔
      machine.Admissible state stream :=
  @output_good_iff_of_invariant _ _ _ machine (fun _ => True)
    machine.admits good (fun _ => stepGood) (fun _ _ => trivial) _ _ trivial

end Foundation.Machine
