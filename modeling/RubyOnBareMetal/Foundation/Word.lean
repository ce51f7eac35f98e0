import Mathlib.Data.Nat.Bitwise

namespace Foundation.Word

/-!
# Rounding a machine word up with a mask

C code rounds an address up by adding a mask and clearing the bits of the
mask.  The bounds below hold for every mask, whether or not it is one less
than a power of two; the exact value is given for the masks that are.
-/

/-- Add `mask` to `word` and clear the bits of `mask`. -/
def roundUp (word mask : UInt64) : UInt64 :=
  (word + mask) &&& ~~~mask

/-- A word splits into its bits outside a mask and its bits inside it. -/
theorem toNat_and_not_add_toNat_and (word mask : UInt64) :
    (word &&& ~~~mask).toNat + (word &&& mask).toNat = word.toNat := by
  have disjoint :
      (word &&& ~~~mask).toBitVec &&& (word &&& mask).toBitVec = 0#64 := by
    ext position
    simp only [UInt64.toBitVec_and, UInt64.toBitVec_not,
      BitVec.getElem_and, BitVec.getElem_not, BitVec.getElem_zero]
    cases word.toBitVec[position] <;> cases mask.toBitVec[position] <;> rfl
  have union :
      (word &&& ~~~mask).toBitVec ||| (word &&& mask).toBitVec =
        word.toBitVec := by
    ext position
    simp only [UInt64.toBitVec_and, UInt64.toBitVec_not,
      BitVec.getElem_and, BitVec.getElem_not, BitVec.getElem_or]
    cases word.toBitVec[position] <;> cases mask.toBitVec[position] <;> rfl
  have sum :=
    BitVec.toNat_add_of_and_eq_zero disjoint
  rw [BitVec.add_eq_or_of_and_eq_zero _ _ disjoint, union] at sum
  exact sum.symm

/-- The sum of two words that does not wrap around. -/
theorem toNat_add_of_lt
    {first second : UInt64}
    (fits : first.toNat + second.toNat < 2 ^ 64) :
    (first + second).toNat = first.toNat + second.toNat := by
  rw [UInt64.toNat_add, Nat.mod_eq_of_lt fits]

/-- Rounding up never moves below its argument. -/
theorem le_roundUp
    {word mask : UInt64}
    (fits : word.toNat + mask.toNat < 2 ^ 64) :
    word.toNat ≤ (roundUp word mask).toNat := by
  have split := toNat_and_not_add_toNat_and (word + mask) mask
  have inMask : ((word + mask) &&& mask).toNat ≤ mask.toNat := by
    rw [UInt64.toNat_and]
    exact Nat.and_le_right
  rw [toNat_add_of_lt fits] at split
  unfold roundUp
  omega

/-- Rounding up adds at most the mask. -/
theorem roundUp_le
    {word mask : UInt64}
    (fits : word.toNat + mask.toNat < 2 ^ 64) :
    (roundUp word mask).toNat ≤ word.toNat + mask.toNat := by
  have split := toNat_and_not_add_toNat_and (word + mask) mask
  rw [toNat_add_of_lt fits] at split
  unfold roundUp
  omega

/-- With a mask of low bits the result is the next multiple of its unit. -/
theorem roundUp_toNat
    {word mask : UInt64}
    {bits : Nat}
    (lowBits : mask.toNat = 2 ^ bits - 1)
    (fits : word.toNat + mask.toNat < 2 ^ 64) :
    (roundUp word mask).toNat =
      (word.toNat + (2 ^ bits - 1)) / 2 ^ bits * 2 ^ bits := by
  have split := toNat_and_not_add_toNat_and (word + mask) mask
  have remainder :
      ((word + mask) &&& mask).toNat =
        (word.toNat + (2 ^ bits - 1)) % 2 ^ bits := by
    rw [UInt64.toNat_and, toNat_add_of_lt fits, lowBits,
      Nat.and_two_pow_sub_one_eq_mod]
  rw [toNat_add_of_lt fits, remainder, lowBits] at split
  have division :=
    Nat.div_add_mod' (word.toNat + (2 ^ bits - 1)) (2 ^ bits)
  unfold roundUp
  omega

/-! ## Exact multiples -/

/-- The least multiple of a unit that is not below a number. -/
def nextMultiple (number unit : Nat) : Nat :=
  (number + (unit - 1)) / unit * unit

/-- The next multiple is not below the number. -/
theorem le_nextMultiple
    {unit : Nat}
    (positive : 0 < unit)
    (number : Nat) :
    number ≤ nextMultiple number unit := by
  have division := Nat.div_add_mod' (number + (unit - 1)) unit
  have remainder := Nat.mod_lt (number + (unit - 1)) positive
  unfold nextMultiple
  omega

/-- It is less than a unit above it. -/
theorem nextMultiple_lt
    {unit : Nat}
    (positive : 0 < unit)
    (number : Nat) :
    nextMultiple number unit < number + unit := by
  have division := Nat.div_add_mod' (number + (unit - 1)) unit
  unfold nextMultiple
  omega

/-- It is a multiple. -/
theorem dvd_nextMultiple (number unit : Nat) :
    unit ∣ nextMultiple number unit :=
  Nat.dvd_mul_left unit _

/-- Rounding down to a unit commutes with wrapping around at a multiple. -/
theorem div_mul_mod
    (number unit count : Nat) :
    number % (unit * count) / unit * unit =
      number / unit * unit % (unit * count) := by
  rw [Nat.mod_mul_right_div_self, Nat.mul_comm (number / unit) unit,
    Nat.mul_mod_mul_left, Nat.mul_comm]

/--
With a mask of low bits rounding up gives the next multiple, wrapped around
once at the end.
-/
theorem roundUp_toNat_mod
    {word mask : UInt64}
    {bits : Nat}
    (atMost : bits ≤ 64)
    (lowBits : mask.toNat = 2 ^ bits - 1) :
    (roundUp word mask).toNat =
      nextMultiple word.toNat (2 ^ bits) % 2 ^ 64 := by
  have split := toNat_and_not_add_toNat_and (word + mask) mask
  have remainder :
      ((word + mask) &&& mask).toNat = (word + mask).toNat % 2 ^ bits := by
    rw [UInt64.toNat_and, lowBits, Nat.and_two_pow_sub_one_eq_mod]
  have division := Nat.div_add_mod' (word + mask).toNat (2 ^ bits)
  have roundedDown :
      (roundUp word mask).toNat =
        (word + mask).toNat / 2 ^ bits * 2 ^ bits := by
    unfold roundUp
    omega
  have units : 2 ^ 64 = 2 ^ bits * 2 ^ (64 - bits) := by
    rw [← Nat.pow_add, Nat.add_sub_cancel' atMost]
  rw [roundedDown, UInt64.toNat_add, lowBits, units, div_mul_mod,
    nextMultiple]

end Foundation.Word
