import RubyOnBareMetal.Foundation.Machine

namespace Foundation.Machine

/-!
# Machines made of components

A component of a machine is a part of its state with a machine of its own.
Each request of the whole asks some requests of the component, and these alone
decide what becomes of its part.  Then a run of the whole, however the
requests for its components are interleaved, takes each component where the
run of what was asked of it does.
-/

variable {State Request Response : Type}
variable {Part Question Answer : Type}

/-- A part of the state and what the requests of the whole ask of it. -/
structure Component
    (machine : Machine State Request Response)
    (part : Machine Part Question Answer) where
  view : State → Part
  asks : State → Request → List Question
  acts :
    ∀ state request,
      view (machine.step state request).2 =
        part.run (view state) (asks state request)

namespace Component

variable {machine : Machine State Request Response}
variable {part : Machine Part Question Answer}
variable (component : Component machine part)

/-- What a run asks of the component, in order. -/
def asked (state : State) : List Request → List Question
  | [] => []
  | request :: rest =>
      component.asks state request ++
        asked (machine.step state request).2 rest

@[simp] theorem asked_nil (state : State) :
    component.asked state [] = [] :=
  rfl

@[simp] theorem asked_cons
    (state : State)
    (request : Request)
    (rest : List Request) :
    component.asked state (request :: rest) =
      component.asks state request ++
        component.asked (machine.step state request).2 rest :=
  rfl

/-- A run takes the component where what it asked takes it. -/
theorem view_run
    (state : State)
    (requests : List Request) :
    component.view (machine.run state requests) =
      part.run (component.view state)
        (component.asked state requests) := by
  induction requests generalizing state with
  | nil =>
      rfl
  | cons request rest inductionHypothesis =>
      rw [run_cons, inductionHypothesis, asked_cons, run_append,
        component.acts]

/-- The responses of the whole to the requests that ask something. -/
def answered (state : State) : List Request → List Response
  | [] => []
  | request :: rest =>
      (if component.asks state request = [] then
        []
      else
        [(machine.step state request).1]) ++
        answered (machine.step state request).2 rest

/--
If a request asks at most one thing and is answered by what the component
answers, the answered requests of a run get the answers of the component.
-/
theorem answered_run
    (report : Answer → Response)
    (reports :
      ∀ state request,
        component.asks state request = [] ∨
        ∃ question,
          component.asks state request = [question] ∧
            (machine.step state request).1 =
              report (part.step (component.view state) question).1)
    (state : State)
    (requests : List Request) :
    component.answered state requests =
      (part.responses (component.view state)
        (component.asked state requests)).map report := by
  induction requests generalizing state with
  | nil =>
      rfl
  | cons request rest inductionHypothesis =>
      have viewed := component.acts state request
      rw [answered, asked_cons, responses_append, List.map_append,
        inductionHypothesis, ← viewed]
      rcases reports state request with
        nothing | ⟨question, one, answer⟩
      · rw [nothing, if_pos rfl]
        rfl
      · rw [one, if_neg (List.cons_ne_nil _ _), answer]
        rfl

end Component

end Foundation.Machine
