import Mathlib.Data.List.Basic

namespace Foundation

/-!
# Buffers that overrun

A buffer of limited size keeps of what it is offered as much as it has room
for, and loses the rest.  What it keeps of several offers is in order, and it
is all of them exactly if nothing is lost.
-/

variable {Element : Type}

/-- What is offered is kept in order or lost. -/
structure Passed (offered kept lost : List Element) : Prop where
  inOrder : kept.Sublist offered
  whole : offered.Perm (kept ++ lost)

namespace Passed

theorem nil : Passed ([] : List Element) [] [] :=
  ⟨.slnil, .nil⟩

/-- Two offers, one after the other. -/
theorem append
    {first firstKept firstLost second secondKept secondLost : List Element}
    (earlier : Passed first firstKept firstLost)
    (later : Passed second secondKept secondLost) :
    Passed (first ++ second) (firstKept ++ secondKept)
      (firstLost ++ secondLost) where
  inOrder := earlier.inOrder.append later.inOrder
  whole := by
    refine (earlier.whole.append later.whole).trans ?_
    rw [List.append_assoc, List.append_assoc]
    exact (List.perm_append_comm_assoc _ _ _).append_left _

/-- A buffer keeps what there is room for. -/
theorem fill (room : Nat) (offered : List Element) :
    Passed offered (offered.take room) (offered.drop room) where
  inOrder := List.take_sublist room offered
  whole := .of_eq (List.take_append_drop room offered).symm

/-- Everything is kept if and only if nothing is lost. -/
theorem kept_eq_iff
    {offered kept lost : List Element}
    (passed : Passed offered kept lost) :
    kept = offered ↔ lost = [] := by
  have lengths := passed.whole.length_eq
  rw [List.length_append] at lengths
  constructor
  · rintro rfl
    exact List.eq_nil_of_length_eq_zero (by omega)
  · rintro rfl
    exact passed.inOrder.eq_of_length (by simpa using lengths.symm)

end Passed

/-- What a buffer holds, and what it has lost so far. -/
structure Lossy (Element : Type) where
  contents : List Element
  lost : List Element

/--
Elements are offered to a buffer and others handed out of it: what it holds
and keeps comes out in order.
-/
def Flows
    (before : Lossy Element)
    (offered handed : List Element)
    (after : Lossy Element) : Prop :=
  ∃ kept lost,
    Passed offered kept lost ∧
      before.contents ++ kept = handed ++ after.contents ∧
      after.lost = before.lost ++ lost

namespace Flows

variable {before middle after : Lossy Element}

theorem nothing (buffer : Lossy Element) : Flows buffer [] [] buffer :=
  ⟨[], [], .nil, List.append_nil _, (List.append_nil _).symm⟩

/-- One flow after the other. -/
theorem append
    {offered handed offeredLater handedLater : List Element}
    (earlier : Flows before offered handed middle)
    (later : Flows middle offeredLater handedLater after) :
    Flows before (offered ++ offeredLater) (handed ++ handedLater) after := by
  obtain ⟨kept, lost, passed, moved, lostAll⟩ := earlier
  obtain ⟨keptLater, lostLater, passedLater, movedLater, lostAllLater⟩ := later
  refine ⟨_, _, passed.append passedLater, ?_, ?_⟩
  · rw [← List.append_assoc, moved, List.append_assoc, movedLater,
      List.append_assoc]
  · rw [lostAllLater, lostAll, List.append_assoc]

/-- What goes through was there or is some of what is offered, in order. -/
theorem exists_kept
    {offered handed : List Element}
    (flows : Flows before offered handed after) :
    ∃ kept,
      before.contents ++ kept = handed ++ after.contents ∧
        kept.Sublist offered := by
  obtain ⟨kept, lost, passed, moved, -⟩ := flows
  exact ⟨kept, moved, passed.inOrder⟩

/-- Nothing is lost if and only if all that is offered goes through. -/
theorem lossless_iff
    {offered handed : List Element}
    (flows : Flows before offered handed after) :
    after.lost = before.lost ↔
      before.contents ++ offered = handed ++ after.contents := by
  obtain ⟨kept, lost, passed, moved, lostAll⟩ := flows
  rw [lostAll, List.append_right_eq_self, ← passed.kept_eq_iff, ← moved,
    List.append_cancel_left_eq, eq_comm]

end Flows

end Foundation
