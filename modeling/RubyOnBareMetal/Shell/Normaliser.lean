import RubyOnBareMetal.Foundation.Hierarchy
import RubyOnBareMetal.Shell.Loader
import RubyOnBareMetal.Shell.Vfs

namespace RubyOnBareMetal.Shell

open Foundation

/-!
# How `require_relative` of `ruby/scripts/init.rb` resolves a path

The loop keeps a stack of components.  A path describes a walk from the root
through a hierarchy of directories, and the stack holds the way to the place
where the walk ends.
-/

/-- What `require_relative` makes of its `full` path. -/
def normalizedPath (full : Path) : Path :=
  slash :: Ruby.join slash (normalize (Ruby.split slash full))

/-- `require_relative` looks up a path of this kind. -/
theorem relativePath_eq (callerFile name : Path) :
    relativePath callerFile name =
      normalizedPath (withExtension (dirname callerFile ++ [slash] ++ name)) :=
  rfl

/-! ## Normalised paths -/

/-- A step that leads neither up nor nowhere. -/
abbrev NotDots (field : Path) : Prop :=
  field ≠ word ['.'] ∧ field ≠ word ['.', '.']

/-- A component of a normalised path. -/
abbrev IsComponent (field : Path) : Prop :=
  field ≠ [] ∧ NotDots field

/-- An absolute path with no empty, `.` or `..` component. -/
def Normalised (path : Path) : Prop :=
  ∃ components,
    Names components ∧
      (∀ component ∈ components, NotDots component) ∧
        path = directoryPath components

/-- Components of a normalised path are names. -/
theorem names_of_components
    {components : List Path}
    (isComponent :
      ∀ component ∈ components, IsName component ∧ NotDots component) :
    Names components :=
  fun component member => (isComponent component member).1

/-- The components with slashes between them and in front. -/
theorem slash_join (components : List Path) :
    slash :: Ruby.join slash components = directoryPath components := by
  cases components with
  | nil =>
      rfl
  | cons first rest =>
      rw [directoryPath, if_neg (List.cons_ne_nil first rest), pathOf_cons,
        Ruby.join_cons]
      rfl

/-! ## The stack of components -/

/-- The loop takes one part after the other. -/
theorem normalize_concat
    (parts : List Path)
    (p : Path) :
    normalize (parts ++ [p]) =
      if p = word ['.', '.'] then
        (normalize parts).dropLast
      else if p ≠ word ['.'] ∧ p ≠ [] then
        normalize parts ++ [p]
      else
        normalize parts := by
  rw [normalize, List.foldl_append]
  rfl

/-- The stack holds components only. -/
theorem normalize_components
    {parts : List Path}
    (clean : ∀ part ∈ parts, slash ∉ part) :
    ∀ component ∈ normalize parts, IsName component ∧ NotDots component := by
  induction parts using List.reverseRecOn with
  | nil =>
      exact List.forall_mem_nil _
  | append_singleton parts p inductionHypothesis =>
      rw [List.forall_mem_append, List.forall_mem_singleton] at clean
      obtain ⟨cleanParts, cleanLast⟩ := clean
      have before := inductionHypothesis cleanParts
      rw [normalize_concat]
      split
      · exact fun component member =>
          before component (List.dropLast_subset _ member)
      · split
        · rename_i notUp kept
          rw [List.forall_mem_append, List.forall_mem_singleton]
          exact ⟨before, ⟨kept.2, cleanLast⟩, kept.1, notUp⟩
        · exact before

/-- The empty fields that `split` drops make no difference. -/
theorem normalize_split (path : Path) :
    normalize (Ruby.split slash path) = normalize (path.splitOn slash) := by
  rw [Ruby.split]
  induction path.splitOn slash using List.reverseRecOn with
  | nil =>
      rfl
  | append_singleton fields last inductionHypothesis =>
      rw [List.reverse_concat]
      by_cases empty : last = []
      · rw [List.dropWhile_cons_of_pos (List.isEmpty_iff.mpr empty),
          inductionHypothesis, normalize_concat, empty]
        rfl
      · have notEmpty : ¬ last.isEmpty = true :=
          fun isEmpty => empty (List.isEmpty_iff.mp isEmpty)
        rw [List.dropWhile_cons_of_neg notEmpty, List.reverse_cons,
          List.reverse_reverse]

/-- The resolver of `require_relative` normalises. -/
theorem normalised_normalizedPath (full : Path) :
    Normalised (normalizedPath full) := by
  have clean : ∀ part ∈ Ruby.split slash full, slash ∉ part :=
    fun _ => Ruby.not_mem_of_mem_split
  have components := normalize_components clean
  exact ⟨_, fun component member => (components component member).1,
    fun component member => (components component member).2, slash_join _⟩

/-! ## Walks -/

/-- Where a component leads to. -/
def moveOf (component : Path) : Move Path :=
  if component = [] ∨ component = word ['.'] then
    .stay
  else if component = word ['.', '.'] then
    .up
  else
    .down component

/-- The walk along all components of a path, empty ones included. -/
def moves (path : Path) : List (Move Path) :=
  (path.splitOn slash).map moveOf

/-- The node that a path leads to from the root. -/
def resolve
    {Node : Type}
    (hierarchy : Hierarchy Node Path)
    (path : Path) :
    Node :=
  hierarchy.walk hierarchy.root (moves path)

/-- Paths with a slash between them are walked one after the other. -/
theorem moves_append (front back : Path) :
    moves (front ++ slash :: back) = moves front ++ moves back := by
  rw [moves, List.splitOn_append_cons_self, List.map_append]
  rfl

/-- A component with a name leads to a child. -/
theorem moveOf_component
    {component : Path}
    (notEmpty : component ≠ [])
    (notDots : NotDots component) :
    moveOf component = .down component := by
  rw [moveOf, if_neg (not_or.mpr ⟨notEmpty, notDots.1⟩), if_neg notDots.2]

/-- The loop walks through the stacks. -/
theorem normalize_eq_walk (parts : List Path) :
    normalize parts = (Hierarchy.stack Path).walk [] (parts.map moveOf) := by
  induction parts using List.reverseRecOn with
  | nil =>
      rfl
  | append_singleton parts p inductionHypothesis =>
      rw [normalize_concat, List.map_append, Hierarchy.walk_append,
        ← inductionHypothesis, List.map_singleton, Hierarchy.walk_cons,
        Hierarchy.walk_nil, moveOf]
      by_cases up : p = word ['.', '.']
      · subst up
        rfl
      · by_cases stays : p = [] ∨ p = word ['.']
        · rw [if_neg up, if_pos stays, if_neg]
          · rfl
          · rintro ⟨notDot, notEmpty⟩
            exact stays.elim notEmpty notDot
        · obtain ⟨notEmpty, notDot⟩ := not_or.mp stays
          rw [if_neg up, if_pos ⟨notDot, notEmpty⟩, if_neg stays, if_neg up]
          rfl

/-- A path is resolved to the names on the stack that it leads to. -/
theorem normalizedPath_eq (full : Path) :
    normalizedPath full =
      directoryPath (resolve (Hierarchy.stack Path) full) := by
  rw [normalizedPath, slash_join, normalize_split, normalize_eq_walk]
  rfl

/-- The names are components. -/
theorem components_resolve (full : Path) :
    ∀ component ∈ resolve (Hierarchy.stack Path) full,
      IsName component ∧ NotDots component := by
  have clean : ∀ part ∈ full.splitOn slash, slash ∉ part :=
    fun _ => Ruby.not_mem_of_mem_splitOn
  have components := normalize_components clean
  rw [normalize_eq_walk] at components
  exact components

/-- The path of a directory leads to the directory, in every hierarchy. -/
theorem resolve_directoryPath
    {Node : Type}
    (hierarchy : Hierarchy Node Path)
    {components : List Path}
    (isComponent :
      ∀ component ∈ components, IsName component ∧ NotDots component) :
    resolve hierarchy (directoryPath components) =
      hierarchy.descend components := by
  have names := names_of_components isComponent
  rw [resolve, moves, directoryPath]
  split
  · next root =>
      rw [root]
      rfl
  · have down : components.map moveOf = components.map .down := by
      refine List.map_congr_left fun component member => ?_
      obtain ⟨isName, notDots⟩ := isComponent component member
      exact moveOf_component isName.1 notDots
    rw [splitOn_pathOf names, List.map_cons, down]
    rfl

/-- What a path is resolved to leads where the path leads. -/
theorem resolve_normalizedPath
    {Node : Type}
    (hierarchy : Hierarchy Node Path)
    (full : Path) :
    resolve hierarchy (normalizedPath full) = resolve hierarchy full := by
  rw [normalizedPath_eq,
    resolve_directoryPath hierarchy (components_resolve full)]
  exact hierarchy.descend_stack (moves full)

/-- Paths that leave the same stack are resolved to the same path. -/
theorem normalizedPath_congr
    {full other : Path}
    (same :
      resolve (Hierarchy.stack Path) full =
        resolve (Hierarchy.stack Path) other) :
    normalizedPath full = normalizedPath other := by
  rw [normalizedPath_eq, normalizedPath_eq, same]

/-- The names of the location that a path leads to. -/
theorem names_resolve (full : Path) :
    (resolve (Location.hierarchy Path) full).names =
      resolve (Hierarchy.stack Path) full :=
  Location.hom_names.walk_root (moves full)

/-! ## Segments that lead nowhere -/

/-- The name of a file or of a directory, which is neither `.` nor `..`. -/
abbrev Component := { name : Path // IsName name ∧ NotDots name }

/-- A segment of a path that leads back to where it starts. -/
inductive Detour where
  | nothing
  | here
  | andBack (component : Component)

/-- The segment without the slash after it. -/
def Detour.segment : Detour → Path
  | .nothing => []
  | .here => word ['.']
  | .andBack component => component.val ++ slash :: word ['.', '.']

/-- It leads back from every node of every hierarchy. -/
theorem Detour.walk_segment
    {Node : Type}
    (hierarchy : Hierarchy Node Path)
    (detour : Detour)
    (node : Node) :
    hierarchy.walk node (moves detour.segment) = node := by
  cases detour with
  | nothing =>
      rfl
  | here =>
      rfl
  | andBack component =>
      obtain ⟨name, isName, notDots⟩ := component
      have single : moves name = [.down name] := by
        rw [moves, List.splitOn_eq_singleton isName.2, List.map_singleton,
          moveOf_component isName.1 notDots]
      rw [segment, moves_append, Hierarchy.walk_append, single]
      exact hierarchy.parent_child node name

/-- A detour between two components makes no difference. -/
theorem normalizedPath_detour
    (detour : Detour)
    (front back : Path) :
    normalizedPath
        (front ++ slash :: (detour.segment ++ slash :: back)) =
      normalizedPath (front ++ slash :: back) := by
  refine normalizedPath_congr ?_
  rw [resolve, resolve, moves_append, moves_append, moves_append,
    Hierarchy.walk_append, Hierarchy.walk_append, detour.walk_segment,
    Hierarchy.walk_append]

/-- Nor does one before the first component. -/
theorem normalizedPath_detour_first
    (detour : Detour)
    (full : Path) :
    normalizedPath (detour.segment ++ slash :: full) =
      normalizedPath full := by
  refine normalizedPath_congr ?_
  rw [resolve, resolve, moves_append, Hierarchy.walk_append,
    detour.walk_segment]

/-- Nor does one after the last component. -/
theorem normalizedPath_detour_last
    (detour : Detour)
    (full : Path) :
    normalizedPath (full ++ slash :: detour.segment) =
      normalizedPath full := by
  refine normalizedPath_congr ?_
  rw [resolve, resolve, moves_append, Hierarchy.walk_append,
    detour.walk_segment]

/-! ## The normaliser -/

/-- Two paths are resolved alike exactly if they lead to one location. -/
theorem normalizedPath_eq_iff (full other : Path) :
    normalizedPath full = normalizedPath other ↔
      resolve (Location.hierarchy Path) full =
        resolve (Location.hierarchy Path) other := by
  constructor
  · intro same
    rw [← resolve_normalizedPath, same, resolve_normalizedPath]
  · intro same
    refine normalizedPath_congr ?_
    rw [← names_resolve, same, names_resolve]

/-- So two calls look up one key exactly if they lead to one location. -/
theorem relativePath_eq_iff (callerFile name otherFile otherName : Path) :
    relativePath callerFile name = relativePath otherFile otherName ↔
      resolve (Location.hierarchy Path)
          (withExtension (dirname callerFile ++ [slash] ++ name)) =
        resolve (Location.hierarchy Path)
          (withExtension (dirname otherFile ++ [slash] ++ otherName)) := by
  rw [relativePath_eq, relativePath_eq, normalizedPath_eq_iff]

/--
The resolver gives the normalised path of the location that a walk along all
components ends at; its result stays, leads to the same node of every
hierarchy, and does not depend on detours.
-/
theorem normalized_path_canonical (full : Path) :
    Normalised (normalizedPath full) ∧
      normalizedPath full =
        directoryPath (resolve (Location.hierarchy Path) full).names ∧
      (∀ {Node : Type} (hierarchy : Hierarchy Node Path),
        resolve hierarchy (normalizedPath full) = resolve hierarchy full) ∧
      normalizedPath (normalizedPath full) = normalizedPath full ∧
      ∀ detour : Detour,
        normalizedPath (detour.segment ++ slash :: full) =
            normalizedPath full ∧
          normalizedPath (full ++ slash :: detour.segment) =
            normalizedPath full ∧
          ∀ front back,
            normalizedPath
                (front ++ slash :: (detour.segment ++ slash :: back)) =
              normalizedPath (front ++ slash :: back) := by
  refine ⟨normalised_normalizedPath full, ?_, ?_, ?_, ?_⟩
  · rw [normalizedPath_eq, names_resolve]
  · exact fun hierarchy => resolve_normalizedPath hierarchy full
  · exact normalizedPath_congr (resolve_normalizedPath _ full)
  · intro detour
    exact ⟨normalizedPath_detour_first detour full,
      normalizedPath_detour_last detour full,
      normalizedPath_detour detour⟩

/-- Steps up at the root stay there. -/
example :
    normalizedPath (word ['.', '.', '/', 'a', '/', '.', '/', '/', 'b', '/',
      '.', '.', '/', '.', '.', '/', '.', '.', '/', 'c', '/']) =
        word ['/', 'c'] := by
  decide

end RubyOnBareMetal.Shell
