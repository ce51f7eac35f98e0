import RubyOnBareMetal.Foundation.Machine

namespace Foundation

/-!
# Dialogues

A program that asks for its input where it needs it has its control in nested
loops; a specification of it reacts to one event after the other and writes
something each time.  The program is at a point that stands for the state of
the specification: the rest of its run, as a function of the passes that are
left.  If every event takes it from such a point to the next, a whole dialogue
is a run of the specification.
-/

/-- The rest of a run, by the number of passes that are left. -/
abbrev Rest (Result : Type) :=
  Nat → Result

/-- A run goes on as another one after some passes. -/
def Leads
    {Result : Type}
    (before after : Rest Result) : Prop :=
  ∃ spent, ∀ left, before (spent + left) = after left

namespace Leads

variable {Result : Type}
variable {first second third : Rest Result}

theorem refl (run : Rest Result) : Leads run run :=
  ⟨0, fun left => by rw [Nat.zero_add]⟩

theorem trans
    (earlier : Leads first second)
    (later : Leads second third) :
    Leads first third := by
  obtain ⟨spent, toSecond⟩ := earlier
  obtain ⟨more, toThird⟩ := later
  refine ⟨spent + more, fun left => ?_⟩
  rw [Nat.add_assoc, toSecond, toThird]

/-- One pass. -/
theorem pass
    (onePass : ∀ left, first (left + 1) = second left) :
    Leads first second :=
  ⟨1, fun left => by rw [Nat.add_comm, onePass]⟩

end Leads

variable {Abstract Control Event Symbol Result : Type}

end Foundation
