import Mathlib.Data.Nat.Bitwise

namespace Foundation.Word

/-!
# The two nibbles of a byte

A word that packs two four-bit fields into its low byte is updated a field at
a time by masking the other field and joining the new value.
-/

/-- The low field. -/
def lowNibble (word : UInt64) : Nat :=
  word.toNat % 16

/-- The high field. -/
def highNibble (word : UInt64) : Nat :=
  word.toNat / 16 % 16

/-- Masking the high field leaves it in its place. -/
theorem and_highMask (number : Nat) :
    number &&& 0xF0 = 16 * (number / 16 % 16) := by
  have mask : 0xF0 = (2 ^ 4 - 1) <<< 4 := rfl
  have field : number / 16 % 16 = (number >>> 4) &&& (2 ^ 4 - 1) := by
    rw [Nat.and_two_pow_sub_one_eq_mod, Nat.shiftRight_eq_div_pow]
  rw [field, Nat.mul_comm, ← Nat.shiftLeft_eq _ 4, mask]
  apply Nat.eq_of_testBit_eq
  intro bit
  simp only [Nat.testBit_and, Nat.testBit_shiftLeft, Nat.testBit_shiftRight]
  by_cases low : 4 ≤ bit
  · simp [low, Nat.add_sub_cancel' low]
  · simp [low]

/-- A new low field, beside the high field of a word. -/
theorem toNat_setLow
    (word : UInt64)
    {digit : Nat}
    (small : digit < 16) :
    ((word &&& 0xF0) ||| UInt64.ofNat digit).toNat =
      16 * highNibble word + digit := by
  have value : (UInt64.ofNat digit).toNat = digit :=
    UInt64.toNat_ofNat_of_lt' (small.trans (by decide))
  have mask : (0xF0 : UInt64).toNat = 0xF0 := rfl
  rw [UInt64.toNat_or, UInt64.toNat_and, value, mask, and_highMask]
  exact (Nat.two_pow_add_eq_or_of_lt (i := 4) small _).symm

/-- A new high field, beside the low field of a word. -/
theorem toNat_setHigh
    (word : UInt64)
    {digit : Nat}
    (small : digit < 16) :
    ((word &&& 0x0F) ||| (UInt64.ofNat digit <<< (4 : UInt64))).toNat =
      16 * digit + lowNibble word := by
  have value : (UInt64.ofNat digit).toNat = digit :=
    UInt64.toNat_ofNat_of_lt' (small.trans (by decide))
  have mask : (0x0F : UInt64).toNat = 2 ^ 4 - 1 := rfl
  have shift : (4 : UInt64).toNat % 64 = 4 := rfl
  have shifted : digit <<< 4 % 2 ^ 64 = 2 ^ 4 * digit := by
    rw [Nat.shiftLeft_eq]
    omega
  have low : lowNibble word < 2 ^ 4 :=
    Nat.mod_lt _ (Nat.two_pow_pos 4)
  rw [UInt64.toNat_or, UInt64.toNat_and, UInt64.toNat_shiftLeft, value,
    mask, shift, shifted, Nat.and_two_pow_sub_one_eq_mod, Nat.lor_comm]
  exact (Nat.two_pow_add_eq_or_of_lt low digit).symm

end Foundation.Word
