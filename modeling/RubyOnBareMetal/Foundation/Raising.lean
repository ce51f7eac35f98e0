namespace Foundation

/-!
# Computations that raise

A computation changes a state and returns a value or raises an exception, and
a handler rescues exceptions of some classes.  Every exception that a call
raises is recorded, also if it is rescued later.  Severe exceptions are those
that nothing rescues: they are recorded exactly when they are the outcome.
-/

/-- What came of a computation. -/
structure Trial (State Exn α : Type) where
  raised : List Exn
  outcome : Except Exn α
  state : State

/-- A computation on a state that may raise. -/
structure Raising (State Exn α : Type) where
  run : State → Trial State Exn α

namespace Raising

variable {State Exn α β : Type}

instance : Monad (Raising State Exn) where
  pure value := ⟨fun state => ⟨[], .ok value, state⟩⟩
  bind body next := ⟨fun state =>
    let first := body.run state
    match first.outcome with
    | .ok value =>
        let later := (next value).run first.state
        ⟨first.raised ++ later.raised, later.outcome, later.state⟩
    | .error exception => ⟨first.raised, .error exception, first.state⟩⟩

/-- A call of code that is not known; what it raises is recorded. -/
def call (answer : State → Except Exn α × State) :
    Raising State Exn α where
  run state :=
    match answer state with
    | (.ok value, after) => ⟨[], .ok value, after⟩
    | (.error exception, after) => ⟨[exception], .error exception, after⟩

/-- Part of the state. -/
def look (read : State → α) : Raising State Exn α where
  run state := ⟨[], .ok (read state), state⟩

/-- A change of the state. -/
def change (update : State → State) : Raising State Exn Unit where
  run state := ⟨[], .ok (), update state⟩

/-- `begin body; rescue; handler; end` for the exceptions that are caught. -/
def rescue
    (catches : Exn → Bool)
    (body : Raising State Exn α)
    (handler : Exn → Raising State Exn α) :
    Raising State Exn α where
  run state :=
    let first := body.run state
    match first.outcome with
    | .ok _ => first
    | .error exception =>
        if catches exception then
          let later := (handler exception).run first.state
          ⟨first.raised ++ later.raised, later.outcome, later.state⟩
        else
          first

/-- After a value the next computation goes on. -/
theorem bind_of_ok
    {body : Raising State Exn α}
    {state : State}
    {value : α}
    (returned : (body.run state).outcome = .ok value)
    (next : α → Raising State Exn β) :
    (body >>= next).run state =
      ⟨(body.run state).raised ++
          ((next value).run (body.run state).state).raised,
        ((next value).run (body.run state).state).outcome,
        ((next value).run (body.run state).state).state⟩ := by
  simp only [bind, returned]

/-- An exception ends the computation. -/
theorem bind_of_error
    {body : Raising State Exn α}
    {state : State}
    {exception : Exn}
    (raised : (body.run state).outcome = .error exception)
    (next : α → Raising State Exn β) :
    (body >>= next).run state =
      ⟨(body.run state).raised, .error exception, (body.run state).state⟩ := by
  simp only [bind, raised]

/-- What returns is not rescued. -/
theorem rescue_of_ok
    {catches : Exn → Bool}
    {body : Raising State Exn α}
    {state : State}
    {value : α}
    (returned : (body.run state).outcome = .ok value)
    (handler : Exn → Raising State Exn α) :
    (rescue catches body handler).run state = body.run state := by
  simp only [rescue, returned]

/-- An exception that is not caught goes on. -/
theorem rescue_of_uncaught
    {catches : Exn → Bool}
    {body : Raising State Exn α}
    {state : State}
    {exception : Exn}
    (raised : (body.run state).outcome = .error exception)
    (uncaught : catches exception = false)
    (handler : Exn → Raising State Exn α) :
    (rescue catches body handler).run state = body.run state := by
  simp only [rescue, raised, uncaught, Bool.false_eq_true, if_false]

/-- An exception that is caught goes to the handler. -/
theorem rescue_of_caught
    {catches : Exn → Bool}
    {body : Raising State Exn α}
    {state : State}
    {exception : Exn}
    (raised : (body.run state).outcome = .error exception)
    (caught : catches exception = true)
    (handler : Exn → Raising State Exn α) :
    (rescue catches body handler).run state =
      ⟨(body.run state).raised ++
          ((handler exception).run (body.run state).state).raised,
        ((handler exception).run (body.run state).state).outcome,
        ((handler exception).run (body.run state).state).state⟩ := by
  simp only [rescue, raised, caught, if_true]

/-- `items.each`. -/
def each (block : β → Raising State Exn Unit) :
    List β → Raising State Exn Unit
  | [] => pure ()
  | item :: items => do
      block item
      each block items

/-! ## Severe exceptions -/

/-- A severe exception is recorded exactly when it is the outcome. -/
def Candid (severe : Exn → Prop) (body : Raising State Exn α) : Prop :=
  ∀ state,
    (∃ exception ∈ (body.run state).raised, severe exception) ↔
      ∃ exception,
        (body.run state).outcome = .error exception ∧ severe exception

variable {severe : Exn → Prop}

/-- What only returns is candid. -/
theorem candid_of_returns
    {body : Raising State Exn α}
    (returns :
      ∀ state, (body.run state).raised = [] ∧
        ∃ value, (body.run state).outcome = .ok value) :
    Candid severe body := by
  intro state
  obtain ⟨silent, value, returned⟩ := returns state
  rw [silent, returned]
  refine iff_of_false ?_ ?_
  · rintro ⟨exception, member, _⟩
    exact List.not_mem_nil member
  · rintro ⟨exception, raised, _⟩
    cases raised

theorem candid_pure (value : α) :
    Candid severe (pure value : Raising State Exn α) :=
  candid_of_returns fun _ => ⟨rfl, value, rfl⟩

theorem candid_look (read : State → α) :
    Candid severe (look read : Raising State Exn α) :=
  candid_of_returns fun state => ⟨rfl, read state, rfl⟩

theorem candid_change (update : State → State) :
    Candid severe (change update : Raising State Exn Unit) :=
  candid_of_returns fun _ => ⟨rfl, (), rfl⟩

/-- The exception of a call is its outcome. -/
theorem candid_call (answer : State → Except Exn α × State) :
    Candid severe (call answer) := by
  intro state
  rw [call]
  dsimp only
  rcases answer state with ⟨exception | value, after⟩
  · simp
  · simp

/-- Nothing severe was raised where a value is returned. -/
theorem Candid.calm_of_ok
    {body : Raising State Exn α}
    (candid : Candid severe body)
    {state : State}
    {value : α}
    (returned : (body.run state).outcome = .ok value) :
    ∀ exception ∈ (body.run state).raised, ¬ severe exception := by
  intro exception member isSevere
  obtain ⟨other, raised, _⟩ :=
    (candid state).mp ⟨exception, member, isSevere⟩
  rw [returned] at raised
  cases raised

/-- Nothing severe was raised where the exception is not severe. -/
theorem Candid.calm_of_error
    {body : Raising State Exn α}
    (candid : Candid severe body)
    {state : State}
    {exception : Exn}
    (raised : (body.run state).outcome = .error exception)
    (notSevere : ¬ severe exception) :
    ∀ exception ∈ (body.run state).raised, ¬ severe exception := by
  intro other member isSevere
  obtain ⟨outcome, same, outcomeSevere⟩ :=
    (candid state).mp ⟨other, member, isSevere⟩
  rw [raised, Except.error.injEq] at same
  exact notSevere (same ▸ outcomeSevere)

/-- What was raised before is left out if nothing of it is severe. -/
theorem exists_severe_append
    {before later : List Exn}
    (calm : ∀ exception ∈ before, ¬ severe exception) :
    (∃ exception ∈ before ++ later, severe exception) ↔
      ∃ exception ∈ later, severe exception := by
  constructor
  · rintro ⟨exception, member, isSevere⟩
    rcases List.mem_append.mp member with early | late
    · exact absurd isSevere (calm exception early)
    · exact ⟨exception, late, isSevere⟩
  · rintro ⟨exception, member, isSevere⟩
    exact ⟨exception, List.mem_append_right before member, isSevere⟩

/-- One computation after the other. -/
theorem Candid.bind
    {body : Raising State Exn α}
    {next : α → Raising State Exn β}
    (candid : Candid severe body)
    (candidNext : ∀ value, Candid severe (next value)) :
    Candid severe (body >>= next) := by
  intro state
  cases outcome : (body.run state).outcome with
  | ok value =>
      rw [bind_of_ok outcome, exists_severe_append
        (candid.calm_of_ok outcome)]
      exact candidNext value (body.run state).state
  | error exception =>
      have whole := candid state
      rw [outcome] at whole
      rw [bind_of_error outcome]
      simpa only [Except.error.injEq] using whole

/-- A handler of exceptions that are not severe. -/
theorem Candid.rescue
    {catches : Exn → Bool}
    {body : Raising State Exn α}
    {handler : Exn → Raising State Exn α}
    (uncaught : ∀ exception, severe exception → catches exception = false)
    (candid : Candid severe body)
    (candidHandler : ∀ exception, Candid severe (handler exception)) :
    Candid severe (Raising.rescue catches body handler) := by
  intro state
  cases outcome : (body.run state).outcome with
  | ok value =>
      rw [rescue_of_ok outcome]
      exact candid state
  | error exception =>
      cases caught : catches exception with
      | false =>
          rw [rescue_of_uncaught outcome caught]
          exact candid state
      | true =>
          have notSevere : ¬ severe exception := by
            intro isSevere
            rw [uncaught exception isSevere] at caught
            cases caught
          rw [rescue_of_caught outcome caught, exists_severe_append
            (candid.calm_of_error outcome notSevere)]
          exact candidHandler exception (body.run state).state

/-- One item after the other. -/
theorem candid_each
    {block : β → Raising State Exn Unit}
    (candid : ∀ item, Candid severe (block item))
    (items : List β) :
    Candid severe (each block items) := by
  induction items with
  | nil =>
      exact candid_pure ()
  | cons item items inductionHypothesis =>
      exact (candid item).bind fun _ => inductionHypothesis

/-- A computation with a handler that returns is left by severe exceptions. -/
theorem Candid.returns_iff
    {catches : Exn → Bool}
    {body : Raising State Exn α}
    {handler : Exn → Raising State Exn α}
    (candid : Candid severe (Raising.rescue catches body handler))
    (onlySevere : ∀ exception, catches exception = false → severe exception)
    (handled :
      ∀ exception state, ∃ value, ((handler exception).run state).outcome =
        .ok value)
    (state : State) :
    (∃ value,
        ((Raising.rescue catches body handler).run state).outcome =
          .ok value) ↔
      ∀ exception ∈ ((Raising.rescue catches body handler).run state).raised,
        ¬ severe exception := by
  constructor
  · rintro ⟨value, returned⟩
    exact candid.calm_of_ok returned
  · intro calm
    cases outcome : (body.run state).outcome with
    | ok value =>
        rw [rescue_of_ok outcome]
        exact ⟨value, outcome⟩
    | error exception =>
        cases caught : catches exception with
        | true =>
            rw [rescue_of_caught outcome caught]
            exact handled exception (body.run state).state
        | false =>
            have escaped :
                ((Raising.rescue catches body handler).run state).outcome =
                  .error exception := by
              rw [rescue_of_uncaught outcome caught]
              exact outcome
            obtain ⟨other, member, isSevere⟩ :=
              (candid state).mpr
                ⟨exception, escaped, onlySevere exception caught⟩
            exact absurd isSevere (calm other member)

end Raising

end Foundation
