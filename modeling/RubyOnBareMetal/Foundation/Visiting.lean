import Mathlib.Data.List.Basic

namespace Foundation

/-!
# Keys that are marked before they are visited

A visit of a key runs a script, and every call in it may visit one more key.
If a call marks the key before it visits it and never visits a marked key, no
key is visited twice, and the number of keys that are not marked bounds how
deep the visits nest, whatever cycles the scripts contain.
-/

/-- What a script does: calls, and what it makes of their outcomes. -/
inductive Script (Call Outcome : Type) where
  | finish (outcome : Outcome)
  | step (call : Call) (next : Outcome → Script Call Outcome)

/-- The keys that are marked, and the keys visited so far, in order. -/
structure Marks (Key : Type) where
  marked : List Key
  visited : List Key
  deriving Repr, DecidableEq

variable {Key Call Outcome : Type}

/-- A computation over the marks, which may be cut off. -/
abbrev Visiting (Key Outcome : Type) :=
  Marks Key → Option (Outcome × Marks Key)

/-- Mark a key and visit it. -/
def Marks.enter (marks : Marks Key) (key : Key) : Marks Key where
  marked := key :: marks.marked
  visited := marks.visited ++ [key]

/-- Nothing is marked and nothing was visited. -/
def Marks.none : Marks Key where
  marked := []
  visited := []

/-- Run a script whose calls are performed by a function. -/
def Script.run (perform : Call → Visiting Key Outcome) :
    Script Call Outcome → Visiting Key Outcome
  | .finish outcome, marks => some (outcome, marks)
  | .step call next, marks =>
      match perform call marks with
      | .none => .none
      | some (outcome, marks) => (next outcome).run perform marks

/-- How calls are performed, and what the visit of a key runs. -/
structure Visitor (Key Call Outcome : Type) where
  perform :
    (Key → Visiting Key Outcome) → Key → Call → Visiting Key Outcome
  script : Key → Script Call Outcome

namespace Visitor

variable (visitor : Visitor Key Call Outcome)

/-- A visit of a key, with visits nested up to a depth. -/
def visit : Nat → Key → Visiting Key Outcome
  | 0, _, _ => none
  | depth + 1, key, marks =>
      (visitor.script key).run
        (visitor.perform (visit depth) key) marks

/-- A call answers at once, or it marks a new key, visits it and answers. -/
inductive Performs
    (keys : List Key)
    (caller : Key)
    (call : Call)
    (marks : Marks Key) : Prop where
  | answers
      (outcome : Outcome)
      (same :
        ∀ visit,
          visitor.perform visit caller call marks = some (outcome, marks))
  | visits
      (key : Key)
      (answer : Outcome → Outcome)
      (known : key ∈ keys)
      (new : key ∉ marks.marked)
      (same :
        ∀ visit,
          visitor.perform visit caller call marks =
            (visit key (marks.enter key)).map
              (fun result => (answer result.1, result.2)))

/-- Every call answers or visits a new one of the keys. -/
abbrev Careful (keys : List Key) : Prop :=
  ∀ caller call marks, visitor.Performs keys caller call marks

end Visitor

/-! ## What holds across every call -/

/-- A relation of marks that a script passes on from its calls. -/
structure Marks.Inherited
    (keys : List Key)
    (relation : Marks Key → Marks Key → Prop) : Prop where
  refl : ∀ marks, relation marks marks
  trans :
    ∀ {before middle after},
      relation before middle → relation middle after → relation before after
  enter :
    ∀ {marks key after},
      key ∈ keys →
      key ∉ marks.marked →
      relation (marks.enter key) after →
      relation marks after

/-- A computation relates the marks before it to the marks after it. -/
abbrev Relates
    (relation : Marks Key → Marks Key → Prop)
    (computation : Visiting Key Outcome) : Prop :=
  ∀ marks outcome after,
    computation marks = some (outcome, after) →
    relation marks after

/-- A script relates what each of its calls does. -/
theorem Script.relates_run
    {keys : List Key}
    {relation : Marks Key → Marks Key → Prop}
    (inherited : Marks.Inherited keys relation)
    {perform : Call → Visiting Key Outcome}
    (performs : ∀ call, Relates relation (perform call))
    (script : Script Call Outcome) :
    Relates relation (script.run perform) := by
  induction script with
  | finish outcome =>
      rintro marks _ _ ⟨⟩
      exact inherited.refl marks
  | step call next inductionHypothesis =>
      intro marks outcome after ran
      rw [Script.run] at ran
      cases performed : perform call marks with
      | none =>
          rw [performed] at ran
          cases ran
      | some result =>
          rw [performed] at ran
          exact inherited.trans
            (performs call marks result.1 result.2 performed)
            (inductionHypothesis result.1 result.2 outcome after ran)

namespace Visitor

variable
  {visitor : Visitor Key Call Outcome}
  {keys : List Key}
  {relation : Marks Key → Marks Key → Prop}

/-- A careful call relates what the visit it may make does. -/
theorem relates_perform
    (careful : visitor.Careful keys)
    (inherited : Marks.Inherited keys relation)
    {visit : Key → Visiting Key Outcome}
    (visits : ∀ key, Relates relation (visit key))
    (caller : Key)
    (call : Call) :
    Relates relation (visitor.perform visit caller call) := by
  intro marks outcome after performed
  cases careful caller call marks with
  | answers answered same =>
      rw [same] at performed
      cases performed
      exact inherited.refl marks
  | visits key answer known new same =>
      rw [same, Option.map_eq_some_iff] at performed
      obtain ⟨result, visited, shape⟩ := performed
      obtain ⟨_, rfl⟩ := Prod.mk.inj shape
      exact inherited.enter known new
        (visits key _ result.1 result.2 visited)

/-- So does a visit. -/
theorem relates_visit
    (careful : visitor.Careful keys)
    (inherited : Marks.Inherited keys relation)
    (depth : Nat)
    (key : Key) :
    Relates relation (visitor.visit depth key) := by
  induction depth generalizing key with
  | zero =>
      intro marks outcome after visited
      cases visited
  | succ depth inductionHypothesis =>
      exact Script.relates_run inherited
        (relates_perform careful inherited inductionHypothesis key)
        (visitor.script key)

/-- So does every call. -/
theorem relates_call
    (careful : visitor.Careful keys)
    (inherited : Marks.Inherited keys relation)
    (depth : Nat)
    (caller : Key)
    (call : Call) :
    Relates relation
      (visitor.perform (visitor.visit depth) caller call) :=
  relates_perform careful inherited
    (relates_visit careful inherited depth) caller call

end Visitor

/-! ## No key is visited twice -/

/-- What was visited is marked, and was visited once. -/
structure Marks.Once (keys : List Key) (marks : Marks Key) : Prop where
  nodup : marks.visited.Nodup
  marked : ∀ key ∈ marks.visited, key ∈ marks.marked
  known : ∀ key ∈ marks.visited, key ∈ keys

/-- Nothing was visited twice at the start. -/
theorem Marks.once_none (keys : List Key) :
    (Marks.none : Marks Key).Once keys where
  nodup := List.nodup_nil
  marked := fun _ member => nomatch member
  known := fun _ member => nomatch member

/-- A new key can be visited. -/
theorem Marks.once_enter
    {keys : List Key}
    {marks : Marks Key}
    {key : Key}
    (once : marks.Once keys)
    (known : key ∈ keys)
    (new : key ∉ marks.marked) :
    (marks.enter key).Once keys where
  nodup := by
    have notVisited : key ∉ marks.visited :=
      fun member => new (once.marked key member)
    exact (List.perm_append_singleton key marks.visited).nodup_iff.mpr
      (List.nodup_cons.mpr ⟨notVisited, once.nodup⟩)
  marked := by
    intro visited member
    rcases List.mem_append.mp member with before | now
    · exact List.mem_cons_of_mem _ (once.marked visited before)
    · rw [List.mem_singleton.mp now]
      exact List.mem_cons_self
  known := by
    intro visited member
    rcases List.mem_append.mp member with before | now
    · exact once.known visited before
    · rw [List.mem_singleton.mp now]
      exact known

/-- A computation that only adds marks and visits no key twice. -/
abbrev Keeps
    (keys : List Key)
    (computation : Visiting Key Outcome) : Prop :=
  ∀ marks outcome after,
    computation marks = some (outcome, after) →
    marks.Once keys →
    after.Once keys ∧ marks.marked ⊆ after.marked

/-- A script passes it on whether the marks are kept. -/
theorem Marks.inherited_keeps (keys : List Key) :
    Marks.Inherited keys fun marks after =>
      marks.Once keys →
      after.Once keys ∧ marks.marked ⊆ after.marked where
  refl := fun _ once => ⟨once, List.Subset.refl _⟩
  trans := by
    intro before middle after first second once
    obtain ⟨onceNow, grows⟩ := first once
    obtain ⟨onceLater, growsLater⟩ := second onceNow
    exact ⟨onceLater, List.Subset.trans grows growsLater⟩
  enter := by
    intro marks key after known new entered once
    obtain ⟨onceLater, grows⟩ :=
      entered (Marks.once_enter once known new)
    exact ⟨onceLater,
      List.Subset.trans (List.subset_cons_self key _) grows⟩

/-- Every call keeps the marks. -/
theorem Visitor.keeps_call
    {visitor : Visitor Key Call Outcome}
    {keys : List Key}
    (careful : visitor.Careful keys)
    (depth : Nat)
    (caller : Key)
    (call : Call) :
    Keeps keys (visitor.perform (visitor.visit depth) caller call) :=
  relates_call careful (Marks.inherited_keeps keys) depth caller call

/-! ## Visits come to an end -/

/-- The number of keys that are not marked, counted as listed. -/
def Marks.unmarked
    [DecidableEq Key]
    (keys : List Key)
    (marks : Marks Key) : Nat :=
  keys.countP fun key => key ∉ marks.marked

/-- More marks leave fewer keys. -/
theorem Marks.unmarked_le
    [DecidableEq Key]
    {keys : List Key}
    {before after : Marks Key}
    (grows : before.marked ⊆ after.marked) :
    after.unmarked keys ≤ before.unmarked keys := by
  refine List.countP_mono_left fun key _ new => ?_
  rw [decide_eq_true_eq] at new ⊢
  exact fun member => new (grows member)

/-- A new key is one key less. -/
theorem Marks.unmarked_enter
    [DecidableEq Key]
    {keys : List Key}
    {marks : Marks Key}
    {key : Key}
    (known : key ∈ keys)
    (new : key ∉ marks.marked) :
    (marks.enter key).unmarked keys < marks.unmarked keys := by
  have grows : marks.marked ⊆ (marks.enter key).marked :=
    List.subset_cons_self key _
  obtain ⟨before, after, rfl⟩ := List.append_of_mem known
  have fewerBefore :
      (marks.enter key).unmarked before ≤ marks.unmarked before :=
    unmarked_le grows
  have fewerAfter :
      (marks.enter key).unmarked after ≤ marks.unmarked after :=
    unmarked_le grows
  have now :
      (marks.enter key).unmarked (key :: after) =
        (marks.enter key).unmarked after :=
    List.countP_cons_of_neg (by simp [enter])
  have notYet :
      marks.unmarked (key :: after) = marks.unmarked after + 1 :=
    List.countP_cons_of_pos (by simp [new])
  simp only [unmarked, List.countP_append] at *
  omega

/-- A script whose calls come to an end does so. -/
theorem Script.run_ends
    [DecidableEq Key]
    {keys : List Key}
    {perform : Call → Visiting Key Outcome}
    (performs : ∀ call, Keeps keys (perform call))
    {bound : Nat}
    (ends :
      ∀ call marks,
        marks.Once keys →
        marks.unmarked keys ≤ bound →
        ∃ result, perform call marks = some result)
    (script : Script Call Outcome)
    {marks : Marks Key}
    (once : marks.Once keys)
    (few : marks.unmarked keys ≤ bound) :
    ∃ result, script.run perform marks = some result := by
  induction script generalizing marks with
  | finish outcome =>
      exact ⟨_, rfl⟩
  | step call next inductionHypothesis =>
      obtain ⟨result, performed⟩ := ends call marks once few
      obtain ⟨onceNow, grows⟩ :=
        performs call marks result.1 result.2 performed once
      rw [Script.run, performed]
      exact inductionHypothesis result.1 onceNow
        (Nat.le_trans (Marks.unmarked_le grows) few)

/-- A computation that comes to an end in one way does so in another. -/
abbrev Extends (first second : Visiting Key Outcome) : Prop :=
  ∀ marks result, first marks = some result → second marks = some result

/-- So does a script with calls in both ways. -/
theorem Script.run_extends
    {first second : Call → Visiting Key Outcome}
    (extended : ∀ call, Extends (first call) (second call))
    (script : Script Call Outcome) :
    Extends (script.run first) (script.run second) := by
  induction script with
  | finish outcome =>
      intro marks result ran
      exact ran
  | step call next inductionHypothesis =>
      intro marks result ran
      rw [Script.run] at ran ⊢
      cases performed : first call marks with
      | none =>
          rw [performed] at ran
          cases ran
      | some middle =>
          rw [performed] at ran
          rw [extended call marks middle performed]
          exact inductionHypothesis middle.1 middle.2 result ran

namespace Visitor

variable {visitor : Visitor Key Call Outcome} {keys : List Key}

/-- A careful call that may visit less deep may visit deeper. -/
theorem perform_extends
    (careful : visitor.Careful keys)
    {first second : Key → Visiting Key Outcome}
    (extended : ∀ key, Extends (first key) (second key))
    (caller : Key)
    (call : Call) :
    Extends (visitor.perform first caller call)
      (visitor.perform second caller call) := by
  intro marks result performed
  cases careful caller call marks with
  | answers answered same =>
      rw [same] at performed ⊢
      exact performed
  | visits key answer known new same =>
      rw [same, Option.map_eq_some_iff] at performed
      obtain ⟨visited, ran, shape⟩ := performed
      rw [same, extended key _ visited ran, ← shape]
      rfl

/-- More depth does not change a visit that came to an end. -/
theorem visit_extends
    (careful : visitor.Careful keys)
    {depth : Nat}
    (key : Key)
    (more : Nat) :
    Extends (visitor.visit depth key)
      (visitor.visit (depth + more) key) := by
  induction depth generalizing key with
  | zero =>
      intro marks result visited
      cases visited
  | succ depth inductionHypothesis =>
      rw [Nat.succ_add]
      exact Script.run_extends
        (perform_extends careful inductionHypothesis key)
        (visitor.script key)

/-- The keys that are not marked are depth enough for a call. -/
theorem perform_ends
    [DecidableEq Key]
    (careful : visitor.Careful keys)
    {visit : Key → Visiting Key Outcome}
    {bound : Nat}
    (ends :
      ∀ key marks,
        marks.Once keys →
        marks.unmarked keys < bound →
        ∃ result, visit key marks = some result)
    (caller : Key)
    (call : Call)
    {marks : Marks Key}
    (once : marks.Once keys)
    (few : marks.unmarked keys ≤ bound) :
    ∃ result, visitor.perform visit caller call marks = some result := by
  cases careful caller call marks with
  | answers outcome same =>
      exact ⟨_, same visit⟩
  | visits key answer known new same =>
      obtain ⟨result, visited⟩ :=
        ends key _ (Marks.once_enter once known new)
          (Nat.lt_of_lt_of_le (Marks.unmarked_enter known new) few)
      rw [same, visited]
      exact ⟨_, rfl⟩

/-- The keys that are not marked are depth enough for a visit. -/
theorem visit_ends
    [DecidableEq Key]
    (careful : visitor.Careful keys)
    (depth : Nat)
    (key : Key)
    (marks : Marks Key)
    (once : marks.Once keys)
    (few : marks.unmarked keys < depth) :
    ∃ result, visitor.visit depth key marks = some result := by
  induction depth generalizing key marks with
  | zero =>
      exact absurd few (Nat.not_lt_zero _)
  | succ depth inductionHypothesis =>
      exact Script.run_ends
        (keeps_call careful depth key)
        (fun call marks => perform_ends careful inductionHypothesis key call)
        (visitor.script key) once (Nat.le_of_lt_succ few)

/-! ## Calls from outside -/

/-- Calls one after the other, each made by its caller. -/
def performAll (depth : Nat) :
    List (Key × Call) → Marks Key → Option (List Outcome × Marks Key)
  | [], marks => some ([], marks)
  | (caller, call) :: rest, marks =>
      match visitor.perform (visitor.visit depth) caller call marks with
      | none => none
      | some (outcome, marks) =>
          (performAll depth rest marks).map
            fun result => (outcome :: result.1, result.2)

/--
Any calls come to an end with an outcome each, the same for every depth that
reaches the number of keys, and no key is visited twice.
-/
theorem performAll_ends
    [DecidableEq Key]
    (careful : visitor.Careful keys)
    (calls : List (Key × Call))
    {marks : Marks Key}
    (once : marks.Once keys) :
    ∃ outcomes after,
      outcomes.length = calls.length ∧
        after.Once keys ∧
        ∀ depth,
          marks.unmarked keys ≤ depth →
          visitor.performAll depth calls marks = some (outcomes, after) := by
  induction calls generalizing marks with
  | nil =>
      exact ⟨[], marks, rfl, once, fun _ _ => rfl⟩
  | cons first rest inductionHypothesis =>
      obtain ⟨caller, call⟩ := first
      obtain ⟨⟨outcome, middle⟩, performed⟩ :=
        perform_ends careful (visit_ends careful (marks.unmarked keys))
          caller call once (Nat.le_refl _)
      obtain ⟨onceNow, grows⟩ :=
        keeps_call careful _ caller call marks outcome middle performed once
      obtain ⟨outcomes, after, length, onceLater, ends⟩ :=
        inductionHypothesis onceNow
      refine ⟨outcome :: outcomes, after, congrArg (· + 1) length,
        onceLater, ?_⟩
      intro depth enough
      obtain ⟨more, rfl⟩ := Nat.exists_eq_add_of_le enough
      have performedDeeper :
          visitor.perform (visitor.visit (marks.unmarked keys + more))
              caller call marks =
            some (outcome, middle) :=
        perform_extends careful
          (fun key => visit_extends careful key more)
          caller call marks _ performed
      have fewer : middle.unmarked keys ≤ marks.unmarked keys + more :=
        Nat.le_trans (Marks.unmarked_le grows) enough
      rw [performAll, performedDeeper]
      dsimp only
      rw [ends _ fewer]
      rfl

end Visitor

end Foundation
