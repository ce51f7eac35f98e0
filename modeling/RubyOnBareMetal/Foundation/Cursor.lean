import Mathlib.Algebra.GroupWithZero.Nat
import RubyOnBareMetal.Foundation.Machine

namespace Foundation

/-!
# Reading a list through a cursor

A cursor stands somewhere in a list.  A read takes up to a given number of
elements from there and moves the cursor behind them.  However the reads cut
the list, what they return adds up to the part the cursor has passed.
-/

/-- A position in a list. -/
structure Cursor (Element : Type) where
  contents : List Element
  position : Nat
  bounded : position ≤ contents.length

namespace Cursor

variable {Element : Type}

/-- The cursor before the first element. -/
def start (contents : List Element) : Cursor Element where
  contents := contents
  position := 0
  bounded := Nat.zero_le _

/-- The elements the cursor has passed. -/
def taken (cursor : Cursor Element) : List Element :=
  cursor.contents.take cursor.position

/-- The elements still ahead. -/
def remaining (cursor : Cursor Element) : List Element :=
  cursor.contents.drop cursor.position

/-- Take up to `count` elements. -/
def read (cursor : Cursor Element) (count : Nat) :
    List Element × Cursor Element :=
  (cursor.remaining.take count, {
    contents := cursor.contents
    position := cursor.position + min count cursor.remaining.length
    bounded := by
      have bounded := cursor.bounded
      simp only [remaining, List.length_drop]
      omega
  })

/-- The machine whose requests are the counts of the reads. -/
def reader : Machine (Cursor Element) Nat (List Element) where
  step := read
  admits _ _ := True

@[simp] theorem taken_start (contents : List Element) :
    (start contents).taken = [] :=
  rfl

@[simp] theorem read_contents
    (cursor : Cursor Element)
    (count : Nat) :
    (cursor.read count).2.contents = cursor.contents :=
  rfl

/-- As many elements are passed as the position says. -/
theorem length_taken (cursor : Cursor Element) :
    cursor.taken.length = cursor.position := by
  rw [taken, List.length_take, Nat.min_eq_left cursor.bounded]

/-- The passed part and the rest make up the list. -/
theorem taken_append_remaining (cursor : Cursor Element) :
    cursor.taken ++ cursor.remaining = cursor.contents :=
  List.take_append_drop _ _

/-- A read moves the elements it returns behind the cursor. -/
theorem taken_read (cursor : Cursor Element) (count : Nat) :
    (cursor.read count).2.taken =
      cursor.taken ++ (cursor.read count).1 := by
  simp only [taken, read, List.take_add, remaining, List.take_eq_take_iff,
    List.append_cancel_left_eq]
  omega

/-- Reads return what the cursor has passed since the first of them. -/
theorem taken_run (cursor : Cursor Element) (counts : List Nat) :
    (reader.run cursor counts).taken =
      cursor.taken ++ (reader.responses cursor counts).flatten := by
  induction counts generalizing cursor with
  | nil =>
      simp
  | cons count rest inductionHypothesis =>
      have first := cursor.taken_read count
      simp only [Machine.run_cons, Machine.responses_cons,
        List.flatten_cons, inductionHypothesis]
      rw [← List.append_assoc]
      exact congrArg (· ++ _) first

/-- Reads do not change the list. -/
theorem contents_run (cursor : Cursor Element) (counts : List Nat) :
    (reader.run cursor counts).contents = cursor.contents := by
  induction counts generalizing cursor with
  | nil =>
      rfl
  | cons count rest inductionHypothesis =>
      exact inductionHypothesis (cursor.read count).2

/-- A read leaves what it did not return. -/
theorem remaining_read (cursor : Cursor Element) (count : Nat) :
    (cursor.read count).2.remaining = cursor.remaining.drop count := by
  simp only [remaining, read, List.length_drop, List.drop_drop]
  by_cases inside : count ≤ cursor.contents.length - cursor.position
  · rw [Nat.min_eq_left inside]
  · rw [List.drop_eq_nil_of_le (by omega),
      List.drop_eq_nil_of_le (by omega)]

/-- Reads return as much as they ask for together. -/
theorem responses_flatten (cursor : Cursor Element) (counts : List Nat) :
    (reader.responses cursor counts).flatten =
      cursor.remaining.take counts.sum := by
  induction counts generalizing cursor with
  | nil =>
      simp
  | cons count rest inductionHypothesis =>
      have next := inductionHypothesis (cursor.read count).2
      rw [remaining_read] at next
      simp only [Machine.responses_cons, List.flatten_cons, List.sum_cons,
        List.take_add]
      exact congrArg (cursor.remaining.take count ++ ·) next

/-- A cursor that has passed everything reads nothing. -/
theorem read_nil_of_taken_eq_contents
    {cursor : Cursor Element}
    (atEnd : cursor.taken = cursor.contents)
    (count : Nat) :
    (cursor.read count).1 = [] := by
  have whole := cursor.taken_append_remaining
  rw [atEnd] at whole
  have noneAhead : cursor.remaining = [] :=
    List.self_eq_append_right.mp whole.symm
  simp [read, noneAhead]

/-- Only a cursor at the end reads nothing when asked for something. -/
theorem taken_eq_contents_of_read_nil
    {cursor : Cursor Element}
    {count : Nat}
    (asked : 0 < count)
    (nothing : (cursor.read count).1 = []) :
    cursor.taken = cursor.contents := by
  have noneAhead : cursor.remaining = [] := by
    rcases List.take_eq_nil_iff.mp nothing with zero | empty
    · omega
    · exact empty
  have whole := cursor.taken_append_remaining
  rwa [noneAhead, List.append_nil] at whole

end Cursor

end Foundation
