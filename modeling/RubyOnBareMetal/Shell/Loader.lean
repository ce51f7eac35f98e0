import RubyOnBareMetal.Foundation.Visiting
import RubyOnBareMetal.Shell.Paths

namespace RubyOnBareMetal.Shell

open Foundation

/-!
# `require` and `require_relative` of `ruby/scripts/init.rb`

Both functions look a file up in the writable file system and in the embedded
one and evaluate it once.  What the evaluation does is a script of further
calls; the original functions they fall back on are parameters.
-/

/-- A call of one of the two functions. -/
inductive LoadCall where
  | require (name : Path)
  | requireRelative (name : Path)
  deriving Repr, DecidableEq

/-- A call returns a truth value or raises. -/
inductive LoadOutcome where
  | returned (value : Bool)
  | loadError
  | otherError
  deriving Repr, DecidableEq

/-- What the evaluation of a file does, with the outcome of each call. -/
abbrev Contents := Script LoadCall LoadOutcome

/-- `$vfs` and the embedded files; neither changes. -/
structure Files where
  vfs : List (Path × Contents)
  embedded : List (Path × Contents)

/-- `original_require` and `original_require_relative`. -/
structure Fallbacks where
  originalRequire : Marks Path → Path → LoadOutcome
  originalRequireRelative : Marks Path → Path → LoadOutcome

/-- The paths of all files. -/
def Files.keys (files : Files) : List Path :=
  files.vfs.map Prod.fst ++ files.embedded.map Prod.fst

/-- `VFS.read`. -/
def Files.vfsRead (files : Files) (path : Path) : Option Contents :=
  files.vfs.lookup path

/-- `File.read`; an error is `none`. -/
def Files.fileRead (files : Files) (path : Path) : Option Contents :=
  (files.vfsRead path).or (files.embedded.lookup path)

/-- The `data` that is evaluated. -/
def Files.data? (files : Files) (path : Path) : Option Contents :=
  (files.vfsRead path).or (files.fileRead path)

/-- The bytes of a word. -/
def word (chars : List Char) : Path :=
  chars.map asciiByte

/-- The extension `.rb`. -/
def rbExtension : Path := word ['.', 'r', 'b']

/-- `/lib/`. -/
def libDirectory : Path := word ['/', 'l', 'i', 'b', '/']

/-- `STUB_MODULES`. -/
def stubModules : List Path := [
  word ['c', 'u', 'r', 's', 'e', 's'],
  word ['b', 'u', 'n', 'd', 'l', 'e', 'r', '/', 'i', 'n', 'l', 'i', 'n',
    'e'],
  word ['b', 'u', 'n', 'd', 'l', 'e', 'r'],
  word ['o', 'p', 'e', 'n', '3'],
  word ['t', 'e', 'm', 'p', 'f', 'i', 'l', 'e'],
  word ['c', 'l', 'i', 'p', 'b', 'o', 'a', 'r', 'd']
]

/-- A path with the extension `.rb`. -/
def withExtension (path : Path) : Path :=
  if rbExtension.isSuffixOf path then path else path ++ rbExtension

/-- The `paths` that `require` tries. -/
def requirePaths (name : Path) : List Path := [
  libDirectory ++ name ++ rbExtension,
  libDirectory ++ name,
  withExtension name
]

/-- The loop that resolves `.` and `..`. -/
def normalize (parts : List Path) : List Path :=
  parts.foldl
    (fun normalized p =>
      if p = word ['.', '.'] then
        normalized.dropLast
      else if p ≠ word ['.'] ∧ p ≠ [] then
        normalized ++ [p]
      else
        normalized)
    []

/-- The `full` path that `require_relative` looks up. -/
def relativePath (callerFile name : Path) : Path :=
  let full := withExtension (dirname callerFile ++ [slash] ++ name)
  slash :: Ruby.join slash (normalize (Ruby.split slash full))

/-- `return true` after an evaluation that did not raise. -/
def afterEval : LoadOutcome → LoadOutcome
  | .returned _ => .returned true
  | .loadError => .loadError
  | .otherError => .otherError

/-- `rescue LoadError`. -/
def rescueLoadError : LoadOutcome → LoadOutcome
  | .returned value => .returned value
  | .loadError => .returned false
  | .otherError => .otherError

/-- The loop of `require` over the paths, and what follows it. -/
def tryPaths
    (files : Files)
    (fallbacks : Fallbacks)
    (evaluate : Path → Visiting Path LoadOutcome)
    (name : Path) :
    List Path → Visiting Path LoadOutcome
  | [], marks =>
      some (rescueLoadError (fallbacks.originalRequire marks name), marks)
  | path :: rest, marks =>
      if path ∈ marks.marked then
        tryPaths files fallbacks evaluate name rest marks
      else
        match files.data? path with
        | none => tryPaths files fallbacks evaluate name rest marks
        | some _ =>
            (evaluate path (marks.enter path)).map
              fun result => (afterEval result.1, result.2)

/-- `require`. -/
def require
    (files : Files)
    (fallbacks : Fallbacks)
    (evaluate : Path → Visiting Path LoadOutcome)
    (name : Path) :
    Visiting Path LoadOutcome :=
  fun marks =>
    if name ∈ stubModules then
      some (.returned true, marks)
    else
      tryPaths files fallbacks evaluate name (requirePaths name) marks

/-- `require_relative`. -/
def requireRelative
    (files : Files)
    (fallbacks : Fallbacks)
    (evaluate : Path → Visiting Path LoadOutcome)
    (callerFile name : Path) :
    Visiting Path LoadOutcome :=
  fun marks =>
    let full := relativePath callerFile name
    if full ∈ marks.marked then
      some (.returned true, marks)
    else
      match files.data? full with
      | none =>
          some (fallbacks.originalRequireRelative marks name, marks)
      | some _ =>
          (evaluate full (marks.enter full)).map
            fun result => (afterEval result.1, result.2)

/-- The loader: `$LOADED_FEATURES_VFS` are the marks, `eval` is the visit. -/
def loader (files : Files) (fallbacks : Fallbacks) :
    Visitor Path LoadCall LoadOutcome where
  perform evaluate callerFile
    | .require name => require files fallbacks evaluate name
    | .requireRelative name =>
        requireRelative files fallbacks evaluate callerFile name
  script path := (files.data? path).getD (.finish (.returned true))

/-! ## Every file is evaluated once -/

/-- What is looked up in a table is one of its keys. -/
theorem mem_keys_of_lookup
    {Value : Type}
    {table : List (Path × Value)}
    {path : Path}
    {value : Value}
    (found : table.lookup path = some value) :
    path ∈ table.map Prod.fst := by
  obtain ⟨before, after, shape, _⟩ := List.lookup_eq_some_iff.mp found
  rw [shape, List.map_append, List.map_cons]
  exact List.mem_append_right _ List.mem_cons_self

/-- What is read has a key. -/
theorem data?_known
    {files : Files}
    {path : Path}
    {contents : Contents}
    (data : files.data? path = some contents) :
    path ∈ files.keys := by
  have inVfs :
      files.vfsRead path = some contents → path ∈ files.keys :=
    fun found => List.mem_append_left _ (mem_keys_of_lookup found)
  rcases Option.or_eq_some_iff.mp data with found | ⟨_, read⟩
  · exact inVfs found
  · rcases Option.or_eq_some_iff.mp read with found | ⟨_, embedded⟩
    · exact inVfs found
    · exact List.mem_append_right _ (mem_keys_of_lookup embedded)

/-- The loop answers, or it evaluates a file that is not marked. -/
theorem tryPaths_performs
    (files : Files)
    (fallbacks : Fallbacks)
    (name : Path)
    (paths : List Path)
    (marks : Marks Path) :
    (∃ outcome, ∀ evaluate,
      tryPaths files fallbacks evaluate name paths marks =
        some (outcome, marks)) ∨
      ∃ path ∈ files.keys,
        path ∉ marks.marked ∧
          ∀ evaluate,
            tryPaths files fallbacks evaluate name paths marks =
              (evaluate path (marks.enter path)).map
                fun result => (afterEval result.1, result.2) := by
  induction paths with
  | nil =>
      exact .inl ⟨_, fun _ => rfl⟩
  | cons path rest inductionHypothesis =>
      by_cases marked : path ∈ marks.marked
      · simp only [tryPaths, if_pos marked]
        exact inductionHypothesis
      · cases data : files.data? path with
        | none =>
            simp only [tryPaths, if_neg marked, data]
            exact inductionHypothesis
        | some contents =>
            refine .inr ⟨path, data?_known data, marked, ?_⟩
            intro evaluate
            simp only [tryPaths, if_neg marked, data]

/-- The loader marks what it evaluates and evaluates nothing marked. -/
theorem loader_careful
    (files : Files)
    (fallbacks : Fallbacks) :
    (loader files fallbacks).Careful files.keys := by
  intro callerFile call marks
  cases call with
  | require name =>
      by_cases stub : name ∈ stubModules
      · exact .answers _ fun evaluate => if_pos stub
      · rcases tryPaths_performs files fallbacks name (requirePaths name)
          marks with ⟨outcome, same⟩ | ⟨path, known, new, same⟩
        · exact .answers outcome fun evaluate =>
            (if_neg stub).trans (same evaluate)
        · exact .visits path afterEval known new fun evaluate =>
            (if_neg stub).trans (same evaluate)
  | requireRelative name =>
      by_cases marked : relativePath callerFile name ∈ marks.marked
      · exact .answers _ fun evaluate => if_pos marked
      · cases data : files.data? (relativePath callerFile name) with
        | none =>
            refine .answers
              (fallbacks.originalRequireRelative marks name) ?_
            intro evaluate
            simp only [loader, requireRelative, if_neg marked, data]
        | some contents =>
            refine .visits _ afterEval (data?_known data) marked ?_
            intro evaluate
            simp only [loader, requireRelative, if_neg marked, data]

/--
For any files, whatever calls their evaluation makes, any calls of `require`
and `require_relative` one after the other come to an end, with evaluations
nested no deeper than there are paths, and no path is evaluated twice.
-/
theorem each_path_evaluated_once
    (files : Files)
    (fallbacks : Fallbacks)
    (calls : List (Path × LoadCall)) :
    ∃ outcomes marks,
      (∀ depth,
        files.keys.length ≤ depth →
        (loader files fallbacks).performAll depth calls .none =
          some (outcomes, marks)) ∧
      outcomes.length = calls.length ∧
      marks.visited.Nodup ∧
      ∀ path ∈ marks.visited, path ∈ files.keys := by
  obtain ⟨outcomes, marks, length, once, ends⟩ :=
    Visitor.performAll_ends (loader_careful files fallbacks) calls
      (Marks.once_none files.keys)
  refine ⟨outcomes, marks, ?_, length, once.nodup, once.known⟩
  intro depth enough
  have few : (Marks.none : Marks Path).unmarked files.keys ≤ depth :=
    Nat.le_trans List.countP_le_length enough
  exact ends depth few

/-- Two files that load each other, loaded by the name of the first. -/
example :
    let a := libDirectory ++ word ['a'] ++ rbExtension
    let b := libDirectory ++ word ['b'] ++ rbExtension
    let loads (call : LoadCall) : Contents := .step call .finish
    let files : Files := {
      vfs := [(a, loads (.requireRelative (word ['b'])))]
      embedded := [(b, loads (.require (word ['a'])))]
    }
    let fallbacks : Fallbacks := ⟨fun _ _ => .loadError, fun _ _ => .loadError⟩
    ((loader files fallbacks).performAll 2
        [([slash], .require (word ['a'])), ([slash], .require (word ['b']))]
        .none).map (fun result => result.2.visited) =
      some [a, b] := by
  decide

end RubyOnBareMetal.Shell
