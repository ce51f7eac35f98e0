import Mathlib.Data.List.Basic

namespace Foundation

/-!
# Stores of independent arrays

A store maps each key in use to an array of its own.  Changing the array of
one key cannot be seen through another key.
-/

/-- An array for every key in use. -/
abbrev ArrayStore (Key Value : Type) :=
  Key → Option (List Value)

namespace ArrayStore

variable {Key Value : Type} [DecidableEq Key]

/-- The store with no key in use. -/
def empty : ArrayStore Key Value :=
  fun _ => none

/-- Give a key an array. -/
def insert
    (store : ArrayStore Key Value)
    (key : Key)
    (values : List Value) :
    ArrayStore Key Value :=
  fun query => if query = key then some values else store query

/-- Take a key, if there is one, out of use. -/
def drop
    (store : ArrayStore Key Value)
    (key : Option Key) :
    ArrayStore Key Value :=
  fun query => if key = some query then none else store query

variable (store : ArrayStore Key Value)

@[simp] theorem insert_same (key : Key) (values : List Value) :
    store.insert key values key = some values := by
  simp [insert]

theorem insert_other
    {key query : Key}
    (values : List Value)
    (different : query ≠ key) :
    store.insert key values query = store query := by
  simp [insert, different]

@[simp] theorem drop_none : store.drop none = store := by
  funext query
  simp [drop]

theorem drop_other
    {key : Option Key}
    {query : Key}
    (different : key ≠ some query) :
    store.drop key query = store query := by
  simp [drop, different]

end ArrayStore

end Foundation
