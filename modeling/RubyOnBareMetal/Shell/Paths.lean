import RubyOnBareMetal.Foundation.Bytes
import RubyOnBareMetal.Foundation.Ruby

namespace RubyOnBareMetal.Shell

open Foundation

/-!
# Paths of `ruby/scripts/init.rb`

The methods of `File` that the script overrides to take a path apart.  The
scripts are evaluated as binary source and read binary input, so every string
is binary: a path, too, is the list of its bytes, and is matched, split and
compared byte by byte.
-/

/-- A path. -/
abbrev Path := List UInt8

/-- The byte of `/`. -/
abbrev slash : UInt8 := 0x2F

/-- `File.dirname`. -/
def dirname (path : Path) : Path :=
  let parts := Ruby.split slash path
  if 1 < parts.length then
    Ruby.join slash parts.dropLast
  else
    [slash]

/-- `File.basename` without an extension. -/
def basename (path : Path) : Path :=
  (Ruby.split slash path).getLast?.getD path

/-! ## Components -/

/-- The name of a file or of a directory. -/
abbrev IsName (name : Path) : Prop :=
  name ≠ [] ∧ slash ∉ name

/-- The components of a path are names. -/
abbrev Names (components : List Path) : Prop :=
  ∀ name ∈ components, IsName name

/-- Each component with `/` in front of it. -/
def pathOf (components : List Path) : Path :=
  components.flatMap (slash :: ·)

/-- A normalised absolute path that is not `/`. -/
abbrev IsKey (path : Path) : Prop :=
  ∃ components, components ≠ [] ∧ Names components ∧ path = pathOf components

/-- Components can be written in parts. -/
theorem pathOf_append (first second : List Path) :
    pathOf (first ++ second) = pathOf first ++ pathOf second :=
  List.flatMap_append

/-- One more component. -/
theorem pathOf_cons
    (name : Path)
    (components : List Path) :
    pathOf (name :: components) = slash :: (name ++ pathOf components) :=
  List.flatMap_cons

@[simp] theorem pathOf_nil : pathOf [] = [] :=
  rfl

/-- The path of names is not `/`. -/
theorem pathOf_ne_root
    {components : List Path}
    (names : Names components) :
    pathOf components ≠ [slash] := by
  cases components with
  | nil =>
      exact List.cons_ne_nil _ _ |>.symm
  | cons name components =>
      intro root
      rw [pathOf_cons] at root
      have empty := (List.cons.inj root).2
      exact (names name List.mem_cons_self).1
        (List.append_eq_nil_iff.mp empty).1

/-- No field between slashes contains a slash. -/
theorem clean_of_names
    {first : Path}
    {components : List Path}
    (cleanFirst : slash ∉ first)
    (names : Names components) :
    ∀ field ∈ first :: components, slash ∉ field :=
  List.forall_mem_cons.mpr
    ⟨cleanFirst, fun name member => (names name member).2⟩

/-- Splitting a path at every slash gives its components. -/
theorem splitOn_pathOf
    {components : List Path}
    (names : Names components) :
    (pathOf components).splitOn slash = [] :: components :=
  Ruby.splitOn_append_fields (clean_of_names (List.not_mem_nil) names)

/-- A path below a directory has the components of the directory first. -/
theorem components_below
    {directory components : List Path}
    (namesDirectory : Names directory)
    (names : Names components)
    {rest : Path}
    (below : pathOf components = pathOf directory ++ slash :: rest) :
    ∃ name more,
      components = directory ++ name :: more ∧
        rest = name ++ pathOf more := by
  have split := splitOn_pathOf names
  rw [below, List.splitOn_append_cons_self,
    splitOn_pathOf namesDirectory, List.cons_append] at split
  have shape := (List.cons.inj split).2
  cases fields : rest.splitOn slash with
  | nil =>
      exact absurd fields (List.splitOn_ne_nil slash rest)
  | cons name more =>
      rw [fields] at shape
      refine ⟨name, more, shape.symm, ?_⟩
      rw [← shape, pathOf_append, pathOf_cons] at below
      exact (List.cons.inj (List.append_cancel_left below)).2.symm

/-- `split` gives the components too. -/
theorem split_components
    {first : Path}
    {components : List Path}
    (cleanFirst : slash ∉ first)
    (names : Names components)
    (nonempty : first ≠ [] ∨ components ≠ []) :
    Ruby.split slash (first ++ pathOf components) = first :: components := by
  refine Ruby.split_append_fields (clean_of_names cleanFirst names) ?_
  intro field isLast
  cases components with
  | nil =>
      rcases nonempty with notEmpty | none
      · cases isLast
        exact notEmpty
      · exact absurd rfl none
  | cons name components =>
      rw [List.getLast?_cons_cons] at isLast
      exact (names field (List.mem_of_getLast? isLast)).1

/-- The directory of a path is the path of all components but the last. -/
theorem dirname_pathOf
    {components : List Path}
    {name : Path}
    (names : Names (components ++ [name])) :
    dirname (pathOf (components ++ [name])) = pathOf components := by
  have parts :
      Ruby.split slash (pathOf (components ++ [name])) =
        [] :: (components ++ [name]) :=
    split_components List.not_mem_nil names (.inr (by simp))
  have several : 1 < ([] :: (components ++ [name])).length := by
    simp
  rw [dirname, parts]
  rw [if_pos several, List.dropLast_cons_of_ne_nil (by simp),
    List.dropLast_concat, Ruby.join_cons]
  rfl

/-- The base name of a path is its last component. -/
theorem basename_pathOf
    {components : List Path}
    {name : Path}
    (names : Names (components ++ [name])) :
    basename (pathOf (components ++ [name])) = name := by
  have parts :
      Ruby.split slash (pathOf (components ++ [name])) =
        [] :: (components ++ [name]) :=
    split_components List.not_mem_nil names (.inr (by simp))
  rw [basename, parts, ← List.cons_append, List.getLast?_concat]
  rfl

end RubyOnBareMetal.Shell
