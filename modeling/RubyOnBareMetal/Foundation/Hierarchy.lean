import Mathlib.Data.List.Induction

namespace Foundation

/-!
# Walks through a hierarchy

A node of a hierarchy has a child for each name, and every node but the root
lies in another one.  A walk enters children and leaves nodes for their
parents.  A stack of names keeps the children that were entered and not left
again; no hierarchy can tell the walk through them from the whole walk.
-/

/-- Nodes that lie in each other; the root is its own parent. -/
structure Hierarchy (Node Name : Type) where
  root : Node
  child : Node → Name → Node
  parent : Node → Node
  parent_root : parent root = root
  parent_child : ∀ node name, parent (child node name) = node

/-- One step of a walk. -/
inductive Move (Name : Type) where
  | stay
  | up
  | down (name : Name)
  deriving Repr, DecidableEq

namespace Hierarchy

variable {Node Other Name : Type}

section

variable (hierarchy : Hierarchy Node Name)

/-- The node that a move leads to. -/
def move (node : Node) : Move Name → Node
  | .stay => node
  | .up => hierarchy.parent node
  | .down name => hierarchy.child node name

/-- The node that a walk leads to. -/
def walk (node : Node) (moves : List (Move Name)) : Node :=
  moves.foldl hierarchy.move node

@[simp] theorem walk_nil (node : Node) : hierarchy.walk node [] = node :=
  rfl

@[simp] theorem walk_cons
    (node : Node)
    (first : Move Name)
    (rest : List (Move Name)) :
    hierarchy.walk node (first :: rest) =
      hierarchy.walk (hierarchy.move node first) rest :=
  rfl

/-- A walk can be made in parts. -/
theorem walk_append
    (node : Node)
    (first later : List (Move Name)) :
    hierarchy.walk node (first ++ later) =
      hierarchy.walk (hierarchy.walk node first) later :=
  List.foldl_append

/-- The node below the root along these names. -/
def descend (names : List Name) : Node :=
  hierarchy.walk hierarchy.root (names.map .down)

/-- One more name leads to a child. -/
theorem descend_concat
    (names : List Name)
    (name : Name) :
    hierarchy.descend (names ++ [name]) =
      hierarchy.child (hierarchy.descend names) name := by
  rw [descend, List.map_append, walk_append]
  rfl

/-- One name less leads to the parent. -/
theorem descend_dropLast (names : List Name) :
    hierarchy.descend names.dropLast =
      hierarchy.parent (hierarchy.descend names) := by
  induction names using List.reverseRecOn with
  | nil =>
      exact hierarchy.parent_root.symm
  | append_singleton names name inductionHypothesis =>
      rw [List.dropLast_concat, descend_concat, hierarchy.parent_child]

end

/-! ## Maps between hierarchies -/

/-- A map that respects the root, children and parents. -/
structure Hom
    (first : Hierarchy Node Name)
    (second : Hierarchy Other Name)
    (map : Node → Other) :
    Prop where
  root : map first.root = second.root
  child :
    ∀ node name,
      map (first.child node name) = second.child (map node) name
  parent : ∀ node, map (first.parent node) = second.parent (map node)

section

variable
  {first : Hierarchy Node Name}
  {second : Hierarchy Other Name}
  {map : Node → Other}

/-- It respects every move. -/
theorem Hom.move
    (hom : Hom first second map)
    (node : Node)
    (step : Move Name) :
    map (first.move node step) = second.move (map node) step := by
  cases step with
  | stay => rfl
  | up => exact hom.parent node
  | down name => exact hom.child node name

/-- So it respects every walk. -/
theorem Hom.walk
    (hom : Hom first second map)
    (node : Node)
    (moves : List (Move Name)) :
    map (first.walk node moves) = second.walk (map node) moves := by
  induction moves generalizing node with
  | nil =>
      rfl
  | cons step rest inductionHypothesis =>
      rw [walk_cons, inductionHypothesis, hom.move, walk_cons]

/-- In particular those from the root. -/
theorem Hom.walk_root
    (hom : Hom first second map)
    (moves : List (Move Name)) :
    map (first.walk first.root moves) = second.walk second.root moves := by
  rw [hom.walk, hom.root]

end

/-! ## Stacks -/

/-- The stacks of names; there is nothing to take from the empty one. -/
def stack (Name : Type) : Hierarchy (List Name) Name where
  root := []
  child names name := names ++ [name]
  parent names := names.dropLast
  parent_root := rfl
  parent_child _ _ := List.dropLast_concat

/-- A stack leads to one node of each hierarchy. -/
theorem hom_descend (hierarchy : Hierarchy Node Name) :
    Hom (stack Name) hierarchy hierarchy.descend where
  root := rfl
  child := hierarchy.descend_concat
  parent := hierarchy.descend_dropLast

/-- A walk ends below the root along the names that it leaves on a stack. -/
theorem descend_stack
    (hierarchy : Hierarchy Node Name)
    (moves : List (Move Name)) :
    hierarchy.descend ((stack Name).walk [] moves) =
      hierarchy.walk hierarchy.root moves :=
  hierarchy.hom_descend.walk_root moves

/-- Going down pushes all names. -/
theorem stack_descend (names : List Name) :
    (stack Name).descend names = names := by
  induction names using List.reverseRecOn with
  | nil =>
      rfl
  | append_singleton names name inductionHypothesis =>
      rw [descend_concat, inductionHypothesis]
      rfl

end Hierarchy

/-! ## Locations -/

/-- A location is the root or lies in another one under some name. -/
inductive Location (Name : Type) where
  | root
  | child (parent : Location Name) (name : Name)
  deriving Repr, DecidableEq

namespace Location

variable {Name : Type}

/-- Where a location lies; the root does not lie anywhere else. -/
def parent : Location Name → Location Name
  | .root => .root
  | .child parent _ => parent

/-- The hierarchy of all locations. -/
def hierarchy (Name : Type) : Hierarchy (Location Name) Name where
  root := .root
  child := .child
  parent := Location.parent
  parent_root := rfl
  parent_child _ _ := rfl

/-- The names from the root to a location. -/
def names : Location Name → List Name
  | .root => []
  | .child parent name => parent.names ++ [name]

/-- They are the stack that leads there. -/
theorem hom_names :
    Hierarchy.Hom (hierarchy Name) (Hierarchy.stack Name) names where
  root := rfl
  child _ _ := rfl
  parent location := by
    cases location with
    | root => rfl
    | child parent name => exact List.dropLast_concat.symm

end Location

end Foundation
