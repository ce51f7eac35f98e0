import RubyOnBareMetal.Foundation.Marking
import RubyOnBareMetal.Shell.Loader

namespace RubyOnBareMetal.Shell

open Foundation

/-!
# Loading a file again

`require` and `require_relative` set the marker of a path before they evaluate
the file and never clear it.  A file whose evaluation raised therefore counts
as loaded, and a second `require` of a name skips the path it evaluated and
goes on to the next candidate.
-/

/-- The call raised. -/
def LoadOutcome.raised : LoadOutcome → Bool
  | .returned _ => false
  | .loadError => true
  | .otherError => true

/-- The call marks a path that is not marked and evaluates its file. -/
def Evaluates
    (files : Files)
    (fallbacks : Fallbacks)
    (callerFile : Path)
    (call : LoadCall)
    (marks : Marks Path)
    (path : Path) : Prop :=
  path ∉ marks.marked ∧
    ∀ evaluate,
      (loader files fallbacks).perform evaluate callerFile call marks =
        (evaluate path (marks.enter path)).map
          fun result => (afterEval result.1, result.2)

/-- What a call does, with evaluations nested up to a depth. -/
abbrev performCall
    (files : Files)
    (fallbacks : Fallbacks)
    (depth : Nat)
    (callerFile : Path)
    (call : LoadCall) :
    Visiting Path LoadOutcome :=
  (loader files fallbacks).perform
    ((loader files fallbacks).visit depth) callerFile call

/-- The call leads to the evaluation of a path, which ends with an outcome. -/
abbrev Loads
    (files : Files)
    (fallbacks : Fallbacks)
    (depth : Nat)
    (callerFile : Path)
    (call : LoadCall)
    (marks : Marks Path)
    (path : Path)
    (outcome : LoadOutcome) : Prop :=
  (loader files fallbacks).LeadsTo depth callerFile call marks path outcome

/-- A call that evaluates a path enters it. -/
theorem Evaluates.enters
    {files : Files}
    {fallbacks : Fallbacks}
    {callerFile path : Path}
    {call : LoadCall}
    {marks : Marks Path}
    (evaluates : Evaluates files fallbacks callerFile call marks path) :
    (loader files fallbacks).Enters callerFile call marks path :=
  ⟨evaluates.1, afterEval, evaluates.2⟩

/-- `require` evaluates its first candidate if that exists and is unmarked. -/
theorem evaluates_first
    {files : Files}
    {fallbacks : Fallbacks}
    {callerFile name : Path}
    {marks : Marks Path}
    (notStub : name ∉ stubModules)
    (new : libDirectory ++ name ++ rbExtension ∉ marks.marked)
    (present : (files.data? (libDirectory ++ name ++ rbExtension)).isSome) :
    Evaluates files fallbacks callerFile (.require name) marks
      (libDirectory ++ name ++ rbExtension) := by
  refine ⟨new, fun evaluate => ?_⟩
  obtain ⟨contents, data⟩ := Option.isSome_iff_exists.mp present
  refine (if_neg notStub).trans ?_
  simp only [requirePaths, tryPaths, if_neg new, data]

/-! ## A failed load is not retried -/

/-- After the call no file is marked whose evaluation it led to and raised. -/
def Retryable
    (files : Files)
    (fallbacks : Fallbacks)
    (depth : Nat)
    (callerFile : Path)
    (call : LoadCall)
    (marks after : Marks Path) : Prop :=
  ∀ path outcome,
    Loads files fallbacks depth callerFile call marks path outcome →
    outcome.raised →
    path ∉ after.marked

/-- A call raises only if the evaluation raised. -/
theorem raised_of_afterEval
    {outcome : LoadOutcome}
    (raised : (afterEval outcome).raised) :
    outcome.raised := by
  cases outcome with
  | returned value => cases raised
  | loadError => rfl
  | otherError => rfl

/-- The evaluation of a call that raised is one that raised. -/
theorem loads_of_raised
    {files : Files}
    {fallbacks : Fallbacks}
    {depth : Nat}
    {callerFile path : Path}
    {call : LoadCall}
    {marks after : Marks Path}
    {outcome : LoadOutcome}
    (evaluates : Evaluates files fallbacks callerFile call marks path)
    (performed :
      performCall files fallbacks depth callerFile call marks =
        some (outcome, after))
    (raised : outcome.raised) :
    ∃ failed,
      Loads files fallbacks depth callerFile call marks path failed ∧
        failed.raised := by
  rw [performCall, evaluates.2, Option.map_eq_some_iff] at performed
  obtain ⟨⟨failed, marked⟩, visited, shape⟩ := performed
  obtain ⟨rfl, rfl⟩ := Prod.mk.inj shape
  exact ⟨failed, .direct evaluates.enters visited,
    raised_of_afterEval raised⟩

/-- Every file that was evaluated stays marked, also if it raised. -/
theorem marked_of_loads
    {files : Files}
    {fallbacks : Fallbacks}
    {depth : Nat}
    {callerFile path : Path}
    {call : LoadCall}
    {marks after later : Marks Path}
    {result outcome : LoadOutcome}
    (loads : Loads files fallbacks depth callerFile call marks path outcome)
    (performed :
      performCall files fallbacks depth callerFile call marks =
        some (result, after))
    (reached : (loader files fallbacks).Reaches after later) :
    path ∈ later.marked :=
  Visitor.marked_of_reaches (loader_careful files fallbacks) reached
    (Visitor.marked_of_leadsTo (loader_careful files fallbacks) loads
      performed)

/--
For any files and any marks, whenever a call evaluates a file and raises, at
least one of the files whose evaluation did not complete stays marked.
-/
theorem failed_load_not_retryable
    (files : Files)
    (fallbacks : Fallbacks)
    (depth : Nat)
    (callerFile path : Path)
    (call : LoadCall)
    (marks after : Marks Path)
    (outcome : LoadOutcome)
    (evaluates : Evaluates files fallbacks callerFile call marks path)
    (performed :
      performCall files fallbacks depth callerFile call marks =
        some (outcome, after))
    (raised : outcome.raised) :
    ¬Retryable files fallbacks depth callerFile call marks after := by
  intro retryable
  obtain ⟨failed, loads, failedRaised⟩ :=
    loads_of_raised evaluates performed raised
  exact retryable path failed loads failedRaised
    (marked_of_loads loads performed .start)

/-- A file that loads one that raises. -/
theorem failed_load_not_retryable_nested :
    let a := libDirectory ++ word ['a'] ++ rbExtension
    let b := libDirectory ++ word ['b'] ++ rbExtension
    let files : Files := {
      vfs := [(a, .step (.requireRelative (word ['b'])) .finish)]
      embedded := [(b, .finish .otherError)]
    }
    let fallbacks : Fallbacks := ⟨fun _ _ => .loadError, fun _ _ => .loadError⟩
    ¬Retryable files fallbacks 2 [slash] (.require (word ['a'])) .none
      ⟨[b, a], [a, b]⟩ :=
  failed_load_not_retryable _ _ 2 [slash] _ (.require (word ['a'])) .none
    ⟨_, _⟩ .otherError
    (evaluates_first (by decide +kernel) List.not_mem_nil
      (by decide +kernel))
    (by decide +kernel) rfl

/-- A file that raised is marked, and a second `require` passes it over. -/
theorem failed_load_marked :
    let a := libDirectory ++ word ['a'] ++ rbExtension
    let files : Files := { vfs := [(a, .finish .otherError)], embedded := [] }
    let fallbacks : Fallbacks := ⟨fun _ _ => .loadError, fun _ _ => .loadError⟩
    let require := performCall files fallbacks 1 [slash] (.require (word ['a']))
    require .none = some (.otherError, ⟨[a], [a]⟩) ∧
      ¬Retryable files fallbacks 1 [slash] (.require (word ['a'])) .none
        ⟨[a], [a]⟩ ∧
      require ⟨[a], [a]⟩ = some (.returned false, ⟨[a], [a]⟩) := by
  intro a files fallbacks require
  refine ⟨by decide +kernel, ?_, by decide +kernel⟩
  intro retryable
  have evaluates :
      Evaluates files fallbacks [slash] (.require (word ['a'])) .none a :=
    evaluates_first (by decide +kernel) List.not_mem_nil (by decide +kernel)
  have loads :
      Loads files fallbacks 1 [slash] (.require (word ['a'])) .none a
        .otherError :=
    .direct evaluates.enters rfl
  exact retryable a .otherError loads rfl List.mem_cons_self

/-! ## A second `require` -/

/-- The loop answers if every candidate that exists is marked. -/
theorem tryPaths_answers_iff
    {files : Files}
    {fallbacks : Fallbacks}
    {name : Path}
    {paths : List Path}
    {marks : Marks Path} :
    (∃ outcome, ∀ evaluate,
      tryPaths files fallbacks evaluate name paths marks =
        some (outcome, marks)) ↔
      ∀ path ∈ paths, (files.data? path).isSome → path ∈ marks.marked := by
  induction paths with
  | nil =>
      constructor
      · intro _ path member
        exact nomatch member
      · intro _
        exact ⟨_, fun _ => rfl⟩
  | cons path rest inductionHypothesis =>
      rw [List.forall_mem_cons]
      by_cases marked : path ∈ marks.marked
      · simp only [tryPaths, marked, if_true, implies_true, true_and]
        exact inductionHypothesis
      · cases data : files.data? path with
        | none =>
            simp only [tryPaths, if_neg marked, data, inductionHypothesis,
              Option.isSome_none, Bool.false_eq_true, false_implies,
              true_and]
        | some contents =>
            simp only [tryPaths, marked, if_false, data, Option.isSome_some,
              imp_false, not_true_eq_false, false_and, iff_false]
            rintro ⟨outcome, answered⟩
            cases answered fun _ _ => none

/-- `require` evaluates nothing if every candidate that exists is marked. -/
theorem require_answers_iff
    {files : Files}
    {fallbacks : Fallbacks}
    {callerFile name : Path}
    {marks : Marks Path}
    (notStub : name ∉ stubModules) :
    (loader files fallbacks).Answers callerFile (.require name) marks ↔
      ∀ path ∈ requirePaths name,
        (files.data? path).isSome → path ∈ marks.marked := by
  have loop :
      (loader files fallbacks).Answers callerFile (.require name) marks ↔
        ∃ outcome, ∀ evaluate,
          tryPaths files fallbacks evaluate name (requirePaths name) marks =
            some (outcome, marks) :=
    exists_congr fun outcome => forall_congr' fun evaluate => by
      simp only [loader, require, if_neg notStub]
  exact loop.trans tryPaths_answers_iff

/-- A `require` that evaluates a file is not one of a stub. -/
theorem notStub_of_evaluates
    {files : Files}
    {fallbacks : Fallbacks}
    {callerFile name path : Path}
    {marks : Marks Path}
    (evaluates :
      Evaluates files fallbacks callerFile (.require name) marks path) :
    name ∉ stubModules := by
  intro stub
  exact Visitor.not_answers_of_enters evaluates.enters
    ⟨_, fun _ => if_pos stub⟩

/--
Whatever was loaded since, and wherever in a run it happens, `require` of the
name evaluates nothing.
-/
def Stable
    (files : Files)
    (fallbacks : Fallbacks)
    (name : Path)
    (marks : Marks Path) : Prop :=
  ∀ later,
    (loader files fallbacks).Reaches marks later →
    ∀ callerFile,
      (loader files fallbacks).Answers callerFile (.require name) later

/--
For any files and any marks, once `require` of a name has evaluated a file and
returned `true`, no later `require` of the name evaluates anything if and only
if every candidate path that exists was marked before or is one whose
evaluation the first call led to.
-/
theorem require_stable_iff
    (files : Files)
    (fallbacks : Fallbacks)
    (depth : Nat)
    (callerFile name path : Path)
    (marks after : Marks Path)
    (evaluates :
      Evaluates files fallbacks callerFile (.require name) marks path)
    (performed :
      performCall files fallbacks depth callerFile (.require name) marks =
        some (.returned true, after)) :
    Stable files fallbacks name after ↔
      ∀ candidate ∈ requirePaths name,
        (files.data? candidate).isSome →
          candidate ∈ marks.marked ∨
            ∃ outcome,
              Loads files fallbacks depth callerFile (.require name) marks
                candidate outcome := by
  have notStub := notStub_of_evaluates evaluates
  have careful := loader_careful files fallbacks
  constructor
  · intro stable candidate member present
    have marked :=
      (require_answers_iff notStub).mp (stable after .start callerFile)
        candidate member present
    exact (Visitor.mem_marked_iff careful performed).mp marked
  · intro covered later reached callerLater
    refine (require_answers_iff notStub).mpr ?_
    intro candidate member present
    have marked : candidate ∈ after.marked :=
      (Visitor.mem_marked_iff careful performed).mpr
        (covered candidate member present)
    exact Visitor.marked_of_reaches careful reached marked

/-- A name with a single candidate. -/
theorem require_stable_single :
    let a := libDirectory ++ word ['a'] ++ rbExtension
    let files : Files := {
      vfs := [(a, .finish (.returned true))]
      embedded := []
    }
    let fallbacks : Fallbacks := ⟨fun _ _ => .loadError, fun _ _ => .loadError⟩
    Stable files fallbacks (word ['a']) ⟨[a], [a]⟩ := by
  intro a files fallbacks
  have evaluates :
      Evaluates files fallbacks [slash] (.require (word ['a'])) .none a :=
    evaluates_first (by decide +kernel) List.not_mem_nil (by decide +kernel)
  refine (require_stable_iff files fallbacks 1 [slash] (word ['a']) a .none
    ⟨[a], [a]⟩ evaluates (by decide +kernel)).mpr ?_
  intro candidate member present
  have itself :
      ∀ candidate ∈ requirePaths (word ['a']),
        (files.data? candidate).isSome → candidate = a := by
    decide +kernel
  obtain rfl := itself candidate member present
  exact .inr ⟨.returned true, .direct evaluates.enters rfl⟩

/-- With `/lib/a.rb` and `/lib/a` the second `require 'a'` evaluates again. -/
theorem require_evaluates_again :
    let a := libDirectory ++ word ['a'] ++ rbExtension
    let files : Files := {
      vfs := [(a, .finish (.returned true)),
        (libDirectory ++ word ['a'], .finish (.returned true))]
      embedded := []
    }
    let fallbacks : Fallbacks := ⟨fun _ _ => .loadError, fun _ _ => .loadError⟩
    Evaluates files fallbacks [slash] (.require (word ['a'])) .none a ∧
      performCall files fallbacks 1 [slash] (.require (word ['a'])) .none =
        some (.returned true, ⟨[a], [a]⟩) ∧
      ¬Stable files fallbacks (word ['a']) ⟨[a], [a]⟩ := by
  intro a files fallbacks
  refine ⟨evaluates_first (by decide +kernel) List.not_mem_nil
    (by decide +kernel), by decide +kernel, ?_⟩
  intro stable
  have marked :=
    (require_answers_iff (by decide +kernel)).mp
      (stable _ .start [slash]) (libDirectory ++ word ['a'])
      (by decide +kernel) (by decide +kernel)
  exact absurd marked (by decide +kernel)

end RubyOnBareMetal.Shell
