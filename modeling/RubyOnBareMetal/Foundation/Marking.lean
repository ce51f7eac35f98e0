import RubyOnBareMetal.Foundation.Visiting

namespace Foundation

/-!
# What a call visits and marks

A call that visits a key runs the key's script, whose calls visit more keys.
The keys marked after the call are those marked before it and those of the
visits it leads to, however they ended, and no mark is ever taken back.
-/

variable {Key Call Outcome : Type}

/-- A script makes a call, with the marks before the call. -/
inductive Script.Calls
    (perform : Call → Visiting Key Outcome) :
    Script Call Outcome → Marks Key → Call → Marks Key → Prop where
  | now
      {call : Call}
      {next : Outcome → Script Call Outcome}
      {marks : Marks Key} :
      Calls perform (.step call next) marks call marks
  | later
      {first call : Call}
      {next : Outcome → Script Call Outcome}
      {marks middle before : Marks Key}
      {outcome : Outcome}
      (performed : perform first marks = some (outcome, middle))
      (calls : Calls perform (next outcome) middle call before) :
      Calls perform (.step first next) marks call before

namespace Visitor

variable (visitor : Visitor Key Call Outcome)

/-- The call changes nothing and visits nothing. -/
def Answers
    (caller : Key)
    (call : Call)
    (marks : Marks Key) : Prop :=
  ∃ outcome,
    ∀ visit, visitor.perform visit caller call marks = some (outcome, marks)

/-- The call marks a key that is not marked and visits it. -/
def Enters
    (caller : Key)
    (call : Call)
    (marks : Marks Key)
    (key : Key) : Prop :=
  key ∉ marks.marked ∧
    ∃ answer : Outcome → Outcome,
      ∀ visit,
        visitor.perform visit caller call marks =
          (visit key (marks.enter key)).map
            (fun result => (answer result.1, result.2))

/-- A call leads to the visit of a key, which ends with an outcome. -/
inductive LeadsTo : Nat → Key → Call → Marks Key → Key → Outcome → Prop where
  | direct
      {depth : Nat}
      {caller : Key}
      {call : Call}
      {marks after : Marks Key}
      {key : Key}
      {outcome : Outcome}
      (enters : visitor.Enters caller call marks key)
      (visited :
        visitor.visit depth key (marks.enter key) = some (outcome, after)) :
      LeadsTo depth caller call marks key outcome
  | nested
      {depth : Nat}
      {caller : Key}
      {call inner : Call}
      {marks before : Marks Key}
      {first key : Key}
      {outcome : Outcome}
      (enters : visitor.Enters caller call marks first)
      (calls :
        (visitor.script first).Calls
          (visitor.perform (visitor.visit depth) first)
          (marks.enter first) inner before)
      (leads : LeadsTo depth first inner before key outcome) :
      LeadsTo (depth + 1) caller call marks key outcome

/-- Marks that a run reaches from others, between visits or inside them. -/
inductive Reaches : Marks Key → Marks Key → Prop where
  | start {marks : Marks Key} :
      Reaches marks marks
  | enters
      {marks middle : Marks Key}
      {caller key : Key}
      {call : Call}
      (reached : Reaches marks middle)
      (entered : visitor.Enters caller call middle key) :
      Reaches marks (middle.enter key)
  | performs
      {marks middle after : Marks Key}
      {depth : Nat}
      {caller : Key}
      {call : Call}
      {outcome : Outcome}
      (reached : Reaches marks middle)
      (performed :
        visitor.perform (visitor.visit depth) caller call middle =
          some (outcome, after)) :
      Reaches marks after

end Visitor

/-! ## Marks are not taken back -/

/-- Marks that were not taken back. -/
theorem Marks.inherited_marked (keys : List Key) :
    Marks.Inherited keys fun marks after : Marks Key =>
      marks.marked ⊆ after.marked where
  refl := fun _ => List.Subset.refl _
  trans := List.Subset.trans
  enter := fun _ _ entered =>
    List.Subset.trans (List.subset_cons_self _ _) entered

/-- A call of a script is performed, and what it marked stays marked. -/
theorem Script.performed_of_calls
    {perform : Call → Visiting Key Outcome}
    (grows :
      ∀ call,
        Relates (fun marks after => marks.marked ⊆ after.marked)
          (perform call))
    {script : Script Call Outcome}
    {marks before after : Marks Key}
    {call : Call}
    {outcome : Outcome}
    (calls : script.Calls perform marks call before)
    (ran : script.run perform marks = some (outcome, after)) :
    ∃ result middle,
      perform call before = some (result, middle) ∧
        middle.marked ⊆ after.marked := by
  have runGrows :
      ∀ script : Script Call Outcome,
        Relates (fun marks after => marks.marked ⊆ after.marked)
          (script.run perform) :=
    Script.relates_run (Marks.inherited_marked []) grows
  induction calls with
  | @now call next marks =>
      rw [Script.run] at ran
      cases performed : perform call marks with
      | none =>
          rw [performed] at ran
          cases ran
      | some result =>
          rw [performed] at ran
          exact ⟨result.1, result.2, rfl, runGrows _ _ _ _ ran⟩
  | later performed calls inductionHypothesis =>
      rw [Script.run, performed] at ran
      exact inductionHypothesis ran

namespace Visitor

variable {visitor : Visitor Key Call Outcome} {keys : List Key}

/-- No call takes a mark back. -/
theorem marked_of_perform
    (careful : visitor.Careful keys)
    (depth : Nat)
    (caller : Key)
    (call : Call) :
    Relates (fun marks after => marks.marked ⊆ after.marked)
      (visitor.perform (visitor.visit depth) caller call) :=
  relates_call careful (Marks.inherited_marked keys) depth caller call

/-- No run takes a mark back. -/
theorem marked_of_reaches
    (careful : visitor.Careful keys)
    {marks after : Marks Key}
    (reached : visitor.Reaches marks after) :
    marks.marked ⊆ after.marked := by
  induction reached with
  | start =>
      exact List.Subset.refl _
  | enters reached entered inductionHypothesis =>
      exact List.Subset.trans inductionHypothesis
        (List.subset_cons_self _ _)
  | performs reached performed inductionHypothesis =>
      exact List.Subset.trans inductionHypothesis
        (marked_of_perform careful _ _ _ _ _ _ performed)

/-- A call that enters a key and comes to an end visited the key. -/
theorem visited_of_enters
    {visit : Key → Visiting Key Outcome}
    {caller key : Key}
    {call : Call}
    {marks after : Marks Key}
    {outcome : Outcome}
    (enters : visitor.Enters caller call marks key)
    (performed :
      visitor.perform visit caller call marks = some (outcome, after)) :
    ∃ result, visit key (marks.enter key) = some (result, after) := by
  obtain ⟨_, answer, same⟩ := enters
  rw [same, Option.map_eq_some_iff] at performed
  obtain ⟨result, visited, shape⟩ := performed
  obtain ⟨_, rfl⟩ := Prod.mk.inj shape
  exact ⟨result.1, visited⟩

/-- A call that enters a key does not answer at once. -/
theorem not_answers_of_enters
    {caller key : Key}
    {call : Call}
    {marks : Marks Key}
    (enters : visitor.Enters caller call marks key) :
    ¬visitor.Answers caller call marks := by
  rintro ⟨outcome, answered⟩
  obtain ⟨_, answer, same⟩ := enters
  have cutOff := (same fun _ _ => none).symm.trans (answered _)
  cases cutOff

/-! ## What is marked after a call -/

/-- A key whose visit a call leads to stays marked. -/
theorem marked_of_leadsTo
    (careful : visitor.Careful keys)
    {depth : Nat}
    {caller key : Key}
    {call : Call}
    {marks after : Marks Key}
    {result outcome : Outcome}
    (leads : visitor.LeadsTo depth caller call marks key outcome)
    (performed :
      visitor.perform (visitor.visit depth) caller call marks =
        some (result, after)) :
    key ∈ after.marked := by
  induction leads generalizing result after with
  | direct enters _ =>
      obtain ⟨ended, visited⟩ := visited_of_enters enters performed
      exact relates_visit careful (Marks.inherited_marked keys) _ _ _ _ _
        visited List.mem_cons_self
  | nested enters calls _ inductionHypothesis =>
      obtain ⟨ended, visited⟩ := visited_of_enters enters performed
      obtain ⟨answered, middle, performedInner, grows⟩ :=
        Script.performed_of_calls (marked_of_perform careful _ _)
          calls visited
      exact grows (inductionHypothesis performedInner)

end Visitor

/-- What a script marks, one of its calls marks. -/
theorem Script.calls_of_marked
    {perform : Call → Visiting Key Outcome}
    {key : Key}
    (script : Script Call Outcome)
    {marks after : Marks Key}
    {outcome : Outcome}
    (ran : script.run perform marks = some (outcome, after))
    (marked : key ∈ after.marked)
    (new : key ∉ marks.marked) :
    ∃ call before result middle,
      script.Calls perform marks call before ∧
        perform call before = some (result, middle) ∧
        key ∉ before.marked ∧
        key ∈ middle.marked := by
  induction script generalizing marks with
  | finish answered =>
      cases ran
      exact absurd marked new
  | step first next inductionHypothesis =>
      rw [Script.run] at ran
      cases performed : perform first marks with
      | none =>
          rw [performed] at ran
          cases ran
      | some middle =>
          rw [performed] at ran
          by_cases now : key ∈ middle.2.marked
          · exact ⟨first, marks, _, _, .now, performed, new, now⟩
          · obtain ⟨call, before, result, last, calls, rest⟩ :=
              inductionHypothesis middle.1 ran now
            exact ⟨call, before, result, last, .later performed calls, rest⟩

namespace Visitor

variable {visitor : Visitor Key Call Outcome} {keys : List Key}

/-- A key that a call marks is one whose visit it leads to. -/
theorem leadsTo_of_marked
    (careful : visitor.Careful keys)
    {depth : Nat}
    {caller key : Key}
    {call : Call}
    {marks after : Marks Key}
    {result : Outcome}
    (performed :
      visitor.perform (visitor.visit depth) caller call marks =
        some (result, after))
    (marked : key ∈ after.marked)
    (new : key ∉ marks.marked) :
    ∃ outcome, visitor.LeadsTo depth caller call marks key outcome := by
  induction depth generalizing caller call marks after result with
  | zero =>
      cases careful caller call marks with
      | answers answered same =>
          rw [same] at performed
          cases performed
          exact absurd marked new
      | visits first answer known unmarked same =>
          rw [same] at performed
          cases performed
  | succ depth inductionHypothesis =>
      cases careful caller call marks with
      | answers answered same =>
          rw [same] at performed
          cases performed
          exact absurd marked new
      | visits first answer known unmarked same =>
          have enters : visitor.Enters caller call marks first :=
            ⟨unmarked, answer, same⟩
          obtain ⟨ended, visited⟩ := visited_of_enters enters performed
          by_cases itself : key = first
          · subst itself
            exact ⟨ended, .direct enters visited⟩
          · have stillNew : key ∉ (marks.enter first).marked := by
              rintro (_ | ⟨_, before⟩)
              · exact itself rfl
              · exact new before
            obtain ⟨inner, before, answered, middle, calls, performedInner,
              unmarkedBefore, markedAfter⟩ :=
              Script.calls_of_marked _ visited marked stillNew
            obtain ⟨outcome, leads⟩ :=
              inductionHypothesis performedInner markedAfter unmarkedBefore
            exact ⟨outcome, .nested enters calls leads⟩

/--
The keys marked after a call are those marked before it and those of the
visits it leads to.
-/
theorem mem_marked_iff
    (careful : visitor.Careful keys)
    {depth : Nat}
    {caller key : Key}
    {call : Call}
    {marks after : Marks Key}
    {result : Outcome}
    (performed :
      visitor.perform (visitor.visit depth) caller call marks =
        some (result, after)) :
    key ∈ after.marked ↔
      key ∈ marks.marked ∨
        ∃ outcome, visitor.LeadsTo depth caller call marks key outcome := by
  constructor
  · intro marked
    by_cases before : key ∈ marks.marked
    · exact .inl before
    · exact .inr (leadsTo_of_marked careful performed marked before)
  · rintro (before | ⟨outcome, leads⟩)
    · exact marked_of_perform careful _ _ _ _ _ _ performed before
    · exact marked_of_leadsTo careful leads performed

end Visitor

end Foundation
