import Mathlib.Data.Nat.Bitwise
import Mathlib.Logic.Function.Basic

namespace Foundation

/-!
# Sets of numbers in words

A set of small numbers is stored as bits, 64 to a word.  The numbers below a
bound are counted; what is known of some members is taken out of the count
one at a time.
-/

/-- The words of a set. -/
abbrev WordSet := Nat → UInt64

namespace WordSet

/-- Whether a number is in the set. -/
def has (set : WordSet) (number : Nat) : Bool :=
  (set (number / 64)).toNat.testBit (number % 64)

/-- The number of members below a bound. -/
def countBelow (set : WordSet) (bound : Nat) : Nat :=
  (List.range bound).countP set.has

/-- The set with another first word. -/
def withFirst (set : WordSet) (word : UInt64) : WordSet :=
  Function.update set 0 word

/-- The first word holds the members below 64. -/
theorem has_withFirst
    (set : WordSet)
    (word : UInt64)
    (number : Nat) :
    (set.withFirst word).has number =
      if number < 64 then word.toNat.testBit number else set.has number := by
  unfold has withFirst
  by_cases first : number < 64
  · rw [if_pos first, Nat.div_eq_of_lt first, Nat.mod_eq_of_lt first,
      Function.update_self]
  · have other : number / 64 ≠ 0 := by omega
    rw [if_neg first, Function.update_of_ne other]

/-- A member below 64 is a bit of the first word. -/
theorem has_of_lt
    (set : WordSet)
    {number : Nat}
    (first : number < 64) :
    set.has number = (set 0).toNat.testBit number := by
  rw [has, Nat.div_eq_of_lt first, Nat.mod_eq_of_lt first]

/-- Nothing is counted exactly if there is no member below the bound. -/
theorem countBelow_eq_zero_iff
    (set : WordSet)
    (bound : Nat) :
    set.countBelow bound = 0 ↔
      ∀ number, number < bound → set.has number = false := by
  simp [countBelow]

end WordSet

/-- What is counted of some numbers below a bound, but for one of them. -/
theorem countP_range_erase
    (counts : Nat → Bool)
    {bound number : Nat}
    (below : number < bound) :
    (List.range bound).countP counts =
      (counts number).toNat +
        (List.range bound).countP
          fun other => counts other && other ≠ number := by
  induction bound with
  | zero =>
      exact absurd below (Nat.not_lt_zero number)
  | succ bound inductionHypothesis =>
      rw [List.range_succ, List.countP_append, List.countP_append,
        List.countP_singleton, List.countP_singleton]
      by_cases last : number = bound
      · subst last
        have others :
            (List.range number).countP
                (fun other => counts other && other ≠ number) =
              (List.range number).countP counts := by
          refine List.countP_congr fun other member => ?_
          have different : other ≠ number :=
            Nat.ne_of_lt (List.mem_range.mp member)
          simp [different]
        rw [others]
        cases counts number <;> simp [Nat.add_comm]
      · have earlier := inductionHypothesis (by omega)
        have different : bound ≠ number := Ne.symm last
        rw [earlier]
        cases counts bound <;> simp [different, Nat.add_assoc]

/-- What is counted of them, but for two of them. -/
theorem countP_range_erase_two
    (counts : Nat → Bool)
    {bound first second : Nat}
    (different : second ≠ first)
    (firstBelow : first < bound)
    (secondBelow : second < bound) :
    (List.range bound).countP counts =
      (counts first).toNat + (counts second).toNat +
        (List.range bound).countP
          fun other =>
            counts other && decide ¬(other = first ∨ other = second) := by
  have withoutFirst := countP_range_erase counts firstBelow
  have withoutSecond :=
    countP_range_erase (fun other => counts other && decide (other ≠ first))
      secondBelow
  have same (other : Nat) :
      ((counts other && decide (other ≠ first)) &&
          decide (other ≠ second)) =
        (counts other && decide ¬(other = first ∨ other = second)) := by
    simp only [not_or, Bool.decide_and, Bool.and_assoc]
  simp only [same] at withoutSecond
  rw [withoutFirst, withoutSecond, decide_eq_true different,
    Bool.and_true, Nat.add_assoc]

end Foundation
