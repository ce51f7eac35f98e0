import Mathlib.Algebra.Group.Nat.Defs

namespace Foundation

/-!
# Bytes and numbers in ASCII

What holds of the bytes with each value below 256 holds of every byte, so that
a property of single bytes is settled by evaluation.  A number is written in
decimal digits and read back digit by digit.
-/

/-- A property of bytes is a property of their values. -/
theorem forall_byte
    {property : UInt8 → Prop}
    (each : ∀ value < 256, property (UInt8.ofNat value)) :
    ∀ byte, property byte := by
  intro byte
  rw [← UInt8.ofNat_toNat (x := byte)]
  exact each byte.toNat byte.toNat_lt

/-! ## Decimal numbers -/

/-- A character as a byte. -/
def asciiByte (c : Char) : UInt8 :=
  UInt8.ofNat c.toNat

/-- The decimal digits of a natural number. -/
def decimalDigits (number : Nat) : List UInt8 :=
  (Nat.toDigits 10 number).map asciiByte

/-- The decimal text of an integer. -/
def decimalText : Int → List UInt8
  | .ofNat number => decimalDigits number
  | .negSucc number => 0x2D :: decimalDigits (number + 1)

/-- The number that decimal digits denote. -/
def decimalValue (digits : List UInt8) : Nat :=
  digits.foldl (fun number c => number * 10 + (c.toNat - 0x30)) 0

/-- A digit is a byte from `0` to `9`. -/
abbrev IsDigit (c : UInt8) : Prop :=
  0x30 ≤ c ∧ c ≤ 0x39

/-- The digits of a number are characters from `0` to `9`. -/
theorem toDigits_range
    {number : Nat}
    {c : Char}
    (member : c ∈ Nat.toDigits 10 number) :
    0x30 ≤ c.toNat ∧ c.toNat ≤ 0x39 := by
  have digit : c.isDigit :=
    Nat.isDigit_of_mem_toDigits (by decide) (by decide) member
  simp only [Char.isDigit, Bool.and_eq_true, decide_eq_true_eq] at digit
  exact digit

/-- The text of a natural number consists of digits. -/
theorem decimalDigits_digit
    {number : Nat}
    {c : UInt8}
    (member : c ∈ decimalDigits number) :
    IsDigit c := by
  obtain ⟨char, charMember, rfl⟩ := List.mem_map.mp member
  obtain ⟨least, most⟩ := toDigits_range charMember
  have value : (asciiByte char).toNat = char.toNat :=
    UInt8.toNat_ofNat_of_lt' (Nat.lt_of_le_of_lt most (by decide))
  rw [IsDigit, UInt8.le_iff_toNat_le, UInt8.le_iff_toNat_le, value]
  exact ⟨least, most⟩

/-- The text of a number is not empty. -/
theorem decimalDigits_ne_nil (number : Nat) :
    decimalDigits number ≠ [] := by
  intro empty
  exact Nat.toDigits_ne_nil (List.map_eq_nil_iff.mp empty)

/-- Characters that are digits are read as the bytes they are written as. -/
theorem foldl_asciiByte
    {digits : List Char}
    (range : ∀ c ∈ digits, 0x30 ≤ c.toNat ∧ c.toNat ≤ 0x39)
    (number : Nat) :
    (digits.map asciiByte).foldl
        (fun number c => number * 10 + (c.toNat - 0x30)) number =
      Nat.ofDigitChars 10 digits number := by
  induction digits generalizing number with
  | nil =>
      rfl
  | cons c rest inductionHypothesis =>
      obtain ⟨⟨_, most⟩, rangeRest⟩ := List.forall_mem_cons.mp range
      have value : (asciiByte c).toNat = c.toNat :=
        UInt8.toNat_ofNat_of_lt' (Nat.lt_of_le_of_lt most (by decide))
      rw [List.map_cons, List.foldl_cons, inductionHypothesis rangeRest,
        Nat.ofDigitChars_cons, value, Nat.mul_comm]
      rfl

/-- A number is read back from its text. -/
theorem decimalValue_decimalDigits (number : Nat) :
    decimalValue (decimalDigits number) = number :=
  (foldl_asciiByte (fun _ member => toDigits_range member) 0).trans
    Nat.ofDigitChars_ten_toDigits

end Foundation
