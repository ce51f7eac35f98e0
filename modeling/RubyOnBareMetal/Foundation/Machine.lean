import Mathlib.Data.List.Basic
import Mathlib.Data.List.Induction

namespace Foundation

/-!
# Machines that answer requests

A machine is a deterministic step function together with the promise its
clients keep.  A run feeds it a list of requests.  Three rules cover what is
proved about runs: an invariant kept by every step holds after every run, a
preorder that every step climbs is climbed by every run, and a machine whose
steps are steps of a specification has runs of that specification.
-/

/-- A step function and the requests its clients may make in each state. -/
structure Machine (State Request Response : Type) where
  step : State → Request → Response × State
  admits : State → Request → Prop

/-- The moves an abstract component may make when it is given a request. -/
abbrev Specification (Abstract Request Response : Type) :=
  Abstract → Request → Response → Abstract → Prop

/-- A finite run of a specification with its requests and responses. -/
inductive Specification.Run
    (specification : Specification Abstract Request Response) :
    Abstract → List Request → List Response → Abstract → Prop where
  | nil (state : Abstract) :
      Run specification state [] [] state
  | cons
      {before middle after : Abstract}
      {request : Request}
      {response : Response}
      {requests : List Request}
      {responses : List Response} :
      specification before request response middle →
      Run specification middle requests responses after →
      Run specification before
        (request :: requests) (response :: responses) after

namespace Machine

variable {State Request Response : Type}
variable (machine : Machine State Request Response)

/-- The state after a list of requests. -/
def run (state : State) : List Request → State
  | [] => state
  | request :: rest => run (machine.step state request).2 rest

/-- The responses to a list of requests, in order. -/
def responses (state : State) : List Request → List Response
  | [] => []
  | request :: rest =>
      (machine.step state request).1 ::
        responses (machine.step state request).2 rest

/-- Every request is one the clients may make in the state it meets. -/
def Admissible (state : State) : List Request → Prop
  | [] => True
  | request :: rest =>
      machine.admits state request ∧
        Admissible (machine.step state request).2 rest

instance decidableAdmissible
    [∀ state request, Decidable (machine.admits state request)] :
    ∀ (requests : List Request) (state : State),
      Decidable (machine.Admissible state requests)
  | [], _ => inferInstanceAs (Decidable True)
  | request :: rest, state =>
      have := decidableAdmissible rest (machine.step state request).2
      inferInstanceAs
        (Decidable
          (machine.admits state request ∧
            machine.Admissible (machine.step state request).2 rest))

@[simp] theorem run_nil (state : State) :
    machine.run state [] = state :=
  rfl

@[simp] theorem run_cons
    (state : State)
    (request : Request)
    (rest : List Request) :
    machine.run state (request :: rest) =
      machine.run (machine.step state request).2 rest :=
  rfl

@[simp] theorem responses_nil (state : State) :
    machine.responses state [] = [] :=
  rfl

@[simp] theorem responses_cons
    (state : State)
    (request : Request)
    (rest : List Request) :
    machine.responses state (request :: rest) =
      (machine.step state request).1 ::
        machine.responses (machine.step state request).2 rest :=
  rfl

/-- Every request is answered. -/
theorem length_responses
    (state : State)
    (requests : List Request) :
    (machine.responses state requests).length = requests.length := by
  induction requests generalizing state with
  | nil =>
      rfl
  | cons request rest inductionHypothesis =>
      exact congrArg (· + 1) (inductionHypothesis _)

/-- A run of a concatenation continues where the first part stopped. -/
theorem run_append
    (state : State)
    (first second : List Request) :
    machine.run state (first ++ second) =
      machine.run (machine.run state first) second := by
  induction first generalizing state with
  | nil =>
      rfl
  | cons request rest inductionHypothesis =>
      exact inductionHypothesis (machine.step state request).2

/-- The responses to a concatenation are concatenated. -/
theorem responses_append
    (state : State)
    (first second : List Request) :
    machine.responses state (first ++ second) =
      machine.responses state first ++
        machine.responses (machine.run state first) second := by
  induction first generalizing state with
  | nil =>
      rfl
  | cons request rest inductionHypothesis =>
      simp [inductionHypothesis]

/-- Admissibility of a concatenation splits at the state between its parts. -/
theorem admissible_append
    {state : State}
    {first second : List Request} :
    machine.Admissible state (first ++ second) ↔
      machine.Admissible state first ∧
        machine.Admissible (machine.run state first) second := by
  induction first generalizing state with
  | nil =>
      simp [Admissible]
  | cons request rest inductionHypothesis =>
      simp only [List.cons_append, Admissible, run_cons,
        inductionHypothesis, and_assoc]

/-- What the clients promise does not matter for where a run leads. -/
theorem run_promise
    (promise : State → Request → Prop)
    (state : State)
    (requests : List Request) :
    run ⟨machine.step, promise⟩ state requests =
      machine.run state requests := by
  induction requests generalizing state with
  | nil =>
      rfl
  | cons request rest inductionHypothesis =>
      exact inductionHypothesis (machine.step state request).2

/-- A projection that steps like another machine runs like it. -/
theorem run_project
    {State' Response' : Type}
    {other : Machine State' Request Response'}
    {project : State → State'}
    (sameStep :
      ∀ state request,
        project (machine.step state request).2 =
          (other.step (project state) request).2)
    (state : State)
    (requests : List Request) :
    project (machine.run state requests) =
      other.run (project state) requests := by
  induction requests generalizing state with
  | nil =>
      rfl
  | cons request rest inductionHypothesis =>
      rw [run_cons, run_cons, inductionHypothesis, sameStep]

/-- And it admits the same runs if it admits the same steps. -/
theorem admissible_project
    {State' Response' : Type}
    {other : Machine State' Request Response'}
    {project : State → State'}
    (sameStep :
      ∀ state request,
        project (machine.step state request).2 =
          (other.step (project state) request).2)
    (sameAdmits :
      ∀ state request,
        machine.admits state request ↔
          other.admits (project state) request)
    (state : State)
    (requests : List Request) :
    machine.Admissible state requests ↔
      other.Admissible (project state) requests := by
  induction requests generalizing state with
  | nil =>
      rfl
  | cons request rest inductionHypothesis =>
      rw [Admissible, Admissible, sameAdmits, inductionHypothesis,
        sameStep]

/-- A promise about the requests alone is kept request by request. -/
theorem admissible_iff_forall_mem
    {allowed : Request → Prop}
    (sameInAll :
      ∀ state request, machine.admits state request ↔ allowed request)
    (state : State)
    (requests : List Request) :
    machine.Admissible state requests ↔
      ∀ request ∈ requests, allowed request := by
  induction requests generalizing state with
  | nil =>
      exact iff_of_true trivial (List.forall_mem_nil _)
  | cons request rest inductionHypothesis =>
      rw [Admissible, List.forall_mem_cons, sameInAll, inductionHypothesis]

/-- Clients that may make every request make admissible requests. -/
theorem admissible_of_forall
    (always : ∀ state request, machine.admits state request)
    (state : State)
    (requests : List Request) :
    machine.Admissible state requests := by
  have sameInAll (state : State) (request : Request) :
      machine.admits state request ↔ True :=
    iff_true_intro (always state request)
  rw [machine.admissible_iff_forall_mem sameInAll]
  exact fun _ _ => trivial

/-- An invariant kept by every admitted step holds after every run. -/
theorem run_invariant
    {invariant : State → Prop}
    (preserved :
      ∀ {state request},
        invariant state →
        machine.admits state request →
        invariant (machine.step state request).2)
    {start : State}
    {requests : List Request}
    (initially : invariant start)
    (admissible : machine.Admissible start requests) :
    invariant (machine.run start requests) := by
  induction requests generalizing start with
  | nil =>
      exact initially
  | cons request rest inductionHypothesis =>
      obtain ⟨admitted, later⟩ := admissible
      exact inductionHypothesis (preserved initially admitted) later

/--
A reflexive and transitive relation that every admitted step from an
invariant state climbs is climbed by every run.
-/
theorem run_climbs
    {invariant : State → Prop}
    {below : State → State → Prop}
    (reflexive : ∀ state, below state state)
    (transitive :
      ∀ {first second third},
        below first second → below second third → below first third)
    (preserved :
      ∀ {state request},
        invariant state →
        machine.admits state request →
        invariant (machine.step state request).2)
    (climbs :
      ∀ {state request},
        invariant state →
        machine.admits state request →
        below state (machine.step state request).2)
    {start : State}
    {requests : List Request}
    (initially : invariant start)
    (admissible : machine.Admissible start requests) :
    below start (machine.run start requests) := by
  induction requests generalizing start with
  | nil =>
      exact reflexive start
  | cons request rest inductionHypothesis =>
      obtain ⟨admitted, later⟩ := admissible
      exact transitive (climbs initially admitted)
        (inductionHypothesis (preserved initially admitted) later)

/--
If every step that is not admitted spoils a state that keeps the invariant,
and what is spoiled stays so, the invariant holds after exactly the
admissible runs.
-/
theorem run_invariant_iff
    {invariant spoiled : State → Prop}
    (preserved :
      ∀ {state request},
        invariant state →
        machine.admits state request →
        invariant (machine.step state request).2)
    (broken :
      ∀ {state request},
        invariant state →
        ¬machine.admits state request →
        spoiled (machine.step state request).2)
    (stays :
      ∀ {state request},
        spoiled state → spoiled (machine.step state request).2)
    (exclusive : ∀ {state}, spoiled state → ¬invariant state)
    {start : State}
    {requests : List Request}
    (initially : invariant start) :
    invariant (machine.run start requests) ↔
      machine.Admissible start requests := by
  have staysAll :
      ∀ (rest : List Request) {state : State},
        spoiled state → spoiled (machine.run state rest) := by
    intro rest
    induction rest with
    | nil =>
        exact id
    | cons request rest inductionHypothesis =>
        exact fun before => inductionHypothesis (stays before)
  refine ⟨?_, machine.run_invariant preserved initially⟩
  intro kept
  induction requests generalizing start with
  | nil =>
      trivial
  | cons request rest inductionHypothesis =>
      by_cases admitted : machine.admits start request
      · exact ⟨admitted,
          inductionHypothesis (preserved initially admitted) kept⟩
      · exact absurd kept
          (exclusive (staysAll rest (broken initially admitted)))

/--
If from the states of an invariant a step keeps a property exactly when a
promise is kept, the property holds all along exactly the runs that keep it.
-/
theorem run_always_iff
    {invariant property : State → Prop}
    {promise : State → Request → Prop}
    (preserved :
      ∀ {state request},
        invariant state →
        machine.admits state request →
        invariant (machine.step state request).2)
    (exact :
      ∀ {state request},
        invariant state →
        property state →
        machine.admits state request →
        (property (machine.step state request).2 ↔
          promise state request))
    {start : State}
    {requests : List Request}
    (initially : invariant start)
    (holds : property start)
    (admissible : machine.Admissible start requests) :
    (∀ earlier later,
        requests = earlier ++ later →
        property (machine.run start earlier)) ↔
      Admissible ⟨machine.step, promise⟩ start requests := by
  induction requests generalizing start with
  | nil =>
      refine ⟨fun _ => trivial, fun _ earlier later split => ?_⟩
      obtain ⟨rfl, -⟩ := List.append_eq_nil_iff.mp split.symm
      exact holds
  | cons request rest inductionHypothesis =>
      obtain ⟨admitted, restAdmissible⟩ := admissible
      have next := preserved initially admitted
      have kept := exact initially holds admitted
      constructor
      · intro always
        have holdsNext := always [request] rest rfl
        refine ⟨kept.mp holdsNext, ?_⟩
        exact (inductionHypothesis next holdsNext restAdmissible).mp
          fun earlier later split =>
            always (request :: earlier) later (congrArg (request :: ·) split)
      · rintro ⟨keeps, restKeeps⟩ earlier later split
        have holdsNext := kept.mpr keeps
        cases earlier with
        | nil =>
            exact holds
        | cons first earlier =>
            obtain ⟨rfl, restSplit⟩ := List.cons.inj split
            exact (inductionHypothesis next holdsNext restAdmissible).mpr
              restKeeps earlier later restSplit

/-- An invariant on the state and the requests so far holds after every run. -/
theorem run_invariant_history
    {invariant : List Request → State → Prop}
    (preserved :
      ∀ {earlier state request},
        invariant earlier state →
        machine.admits state request →
        invariant (earlier ++ [request]) (machine.step state request).2)
    {start : State}
    {requests : List Request}
    (initially : invariant [] start)
    (admissible : machine.Admissible start requests) :
    invariant requests (machine.run start requests) := by
  induction requests using List.reverseRecOn with
  | nil =>
      exact initially
  | append_singleton earlier request inductionHypothesis =>
      rw [admissible_append] at admissible
      obtain ⟨before, admitted, -⟩ := admissible
      rw [run_append]
      exact preserved (inductionHypothesis before) admitted

/--
The same as before for a promise that is one on the requests: the property
holds all along exactly if it is kept at every request of the list.
-/
theorem run_always_iff_history
    {invariant : List Request → State → Prop}
    {property : State → Prop}
    {promise : List Request → Request → Prop}
    (preserved :
      ∀ {earlier state request},
        invariant earlier state →
        machine.admits state request →
        invariant (earlier ++ [request]) (machine.step state request).2)
    (exact :
      ∀ {earlier state request},
        invariant earlier state →
        property state →
        machine.admits state request →
        (property (machine.step state request).2 ↔
          promise earlier request))
    {start : State}
    {requests : List Request}
    (initially : invariant [] start)
    (holds : property start)
    (admissible : machine.Admissible start requests) :
    (∀ earlier later,
        requests = earlier ++ later →
        property (machine.run start earlier)) ↔
      ∀ earlier request later,
        requests = earlier ++ request :: later →
        promise earlier request := by
  have stepExact {earlier later : List Request} {request : Request}
      (split : requests = earlier ++ request :: later)
      (before : property (machine.run start earlier)) :
      property (machine.run start (earlier ++ [request])) ↔
        promise earlier request := by
    rw [split, admissible_append] at admissible
    obtain ⟨admitted, next, -⟩ := admissible
    rw [run_append]
    exact exact (machine.run_invariant_history preserved initially admitted)
      before next
  constructor
  · intro always earlier request later split
    have after : requests = (earlier ++ [request]) ++ later := by
      rw [split, List.append_assoc, List.singleton_append]
    exact (stepExact split (always earlier _ split)).mp (always _ _ after)
  · intro keeps earlier
    induction earlier using List.reverseRecOn with
    | nil =>
        exact fun _ _ => holds
    | append_singleton earlier request inductionHypothesis =>
        intro later split
        rw [List.append_assoc, List.singleton_append] at split
        exact (stepExact split (inductionHypothesis _ split)).mpr
          (keeps earlier request later split)

/--
Two ways to turn a script into requests give the same run if their requests
have the same step in every state of an invariant.
-/
theorem run_congr
    {Action : Type}
    (invariant : State → Prop)
    (first second : Action → Request)
    (preserved :
      ∀ state action,
        invariant state →
        invariant (machine.step state (second action)).2)
    (same :
      ∀ state action,
        invariant state →
        machine.step state (first action) =
          machine.step state (second action))
    {start : State}
    (initially : invariant start)
    (script : List Action) :
    machine.responses start (script.map first) =
        machine.responses start (script.map second) ∧
      machine.run start (script.map first) =
        machine.run start (script.map second) := by
  induction script generalizing start with
  | nil =>
      exact ⟨rfl, rfl⟩
  | cons action rest inductionHypothesis =>
      have next : invariant (machine.step start (second action)).2 :=
        preserved start action initially
      obtain ⟨sameResponses, sameRun⟩ := inductionHypothesis next
      simp only [List.map_cons, responses_cons, run_cons, same _ _ initially,
        sameResponses, sameRun, and_self]

/--
A machine refines a specification when an abstraction of its invariant states
turns every admitted step into a specified move.
-/
theorem run_refines
    {Abstract : Type}
    {specification : Specification Abstract Request Response}
    {invariant : State → Prop}
    (abstraction : State → Abstract)
    (preserved :
      ∀ {state request},
        invariant state →
        machine.admits state request →
        invariant (machine.step state request).2)
    (simulates :
      ∀ {state request},
        invariant state →
        machine.admits state request →
        specification (abstraction state) request
          (machine.step state request).1
          (abstraction (machine.step state request).2))
    {start : State}
    {requests : List Request}
    (initially : invariant start)
    (admissible : machine.Admissible start requests) :
    specification.Run (abstraction start) requests
      (machine.responses start requests)
      (abstraction (machine.run start requests)) := by
  induction requests generalizing start with
  | nil =>
      exact .nil _
  | cons request rest inductionHypothesis =>
      obtain ⟨admitted, later⟩ := admissible
      exact .cons (simulates initially admitted)
        (inductionHypothesis (preserved initially admitted) later)

end Machine

end Foundation
