import RubyOnBareMetal.Syscall.System

namespace RubyOnBareMetal.Syscall

open Foundation

/-!
# Printed numbers

The loops that print a system call number fill a buffer of 20 bytes with at
most 19 digits from the last one on and print it backwards.  They negate a
negative number, which overflows for the least `long`.
-/

/-- Division of a number that is not negative. -/
theorem ofNat_div_ten
    {number : Nat}
    (fits : number < 2 ^ 63) :
    Int64.ofNat number / 10 = Int64.ofNat (number / 10) := by
  have divisor : Int64.toInt 10 = 10 := by decide
  have quotientFits : number / 10 < 2 ^ 63 := by omega
  apply Int64.toInt.inj
  rw [Int64.toInt_div_of_ne_right _ _ (by decide), divisor,
    Int64.toInt_ofNat_of_lt fits, Int64.toInt_ofNat_of_lt quotientFits]
  exact Int.ofNat_tdiv number 10

/-- And its last digit. -/
theorem ofNat_mod_ten
    {number : Nat}
    (fits : number < 2 ^ 63) :
    Int64.ofNat number % 10 = Int64.ofNat (number % 10) := by
  have divisor : Int64.toInt 10 = 10 := by decide
  have remainderFits : number % 10 < 2 ^ 63 := by omega
  apply Int64.toInt.inj
  rw [Int64.toInt_mod, divisor,
    Int64.toInt_ofNat_of_lt fits, Int64.toInt_ofNat_of_lt remainderFits]
  exact Int.ofNat_tmod number 10

/-- A digit is printed as its character. -/
theorem digit_character
    {digit : Nat}
    (small : digit < 10) :
    (0x30 + Int64.ofNat digit).toUInt64.toUInt8 =
      asciiByte digit.digitChar := by
  revert digit
  decide

/-- A number is positive as a `long` if it is. -/
theorem zero_lt_ofNat
    {number : Nat}
    (fits : number < 2 ^ 63) :
    0 < Int64.ofNat number ↔ 0 < number := by
  rw [Int64.lt_iff_toInt_lt, Int64.toInt_ofNat_of_lt fits]
  exact Int.natCast_pos

/-- The loop leaves the digits of a number that has room for them. -/
theorem digitLoop_ofNat
    {room number : Nat}
    (positive : 0 < number)
    (fits : number < 2 ^ 63)
    (enough : number < 10 ^ room) :
    (digitLoop room (Int64.ofNat number)).reverse =
      decimalDigits number := by
  induction room generalizing number with
  | zero =>
      rw [pow_zero] at enough
      omega
  | succ room inductionHypothesis =>
      have lastDigit : number % 10 < 10 := Nat.mod_lt _ (by decide)
      rw [digitLoop, if_pos ((zero_lt_ofNat fits).mpr positive),
        ofNat_mod_ten fits, ofNat_div_ten fits, digit_character lastDigit,
        List.reverse_cons, decimalDigits]
      by_cases oneDigit : number < 10
      · have noOther : digitLoop room (Int64.ofNat (number / 10)) = [] := by
          rw [Nat.div_eq_of_lt oneDigit]
          cases room <;> rfl
        rw [noOther, Nat.toDigits_of_lt_base oneDigit,
          Nat.mod_eq_of_lt oneDigit]
        rfl
      · have others : 0 < number / 10 := by omega
        have quotient : number / 10 < 10 ^ room := by
          rw [Nat.pow_succ'] at enough
          exact Nat.div_lt_of_lt_mul enough
        rw [inductionHypothesis others (by omega) quotient, decimalDigits,
          Nat.toDigits_of_base_le (by decide) (Nat.not_lt.mp oneDigit),
          List.map_append]
        rfl

/-- A number that is not negative is printed in decimal. -/
theorem digits_ofNat
    {number : Nat}
    (fits : number < 2 ^ 63) :
    (if Int64.ofNat number = 0 then
      [0x30]
    else
      digitLoop 19 (Int64.ofNat number)).reverse =
      decimalDigits number := by
  by_cases zero : number = 0
  · subst zero
    rfl
  · have notZero : Int64.ofNat number ≠ 0 := by
      intro same
      have value := congrArg Int64.toInt same
      rw [Int64.toInt_ofNat_of_lt fits] at value
      exact zero (Int.ofNat.inj value)
    rw [if_neg notZero]
    exact digitLoop_ofNat (Nat.pos_of_ne_zero zero) fits
      (Nat.lt_trans fits (by decide))

/--
Every `long` but the least is printed in decimal, with its sign and without
leading zeros.
-/
theorem number_text_decimal
    (n : Int64)
    (notLeast : n ≠ Int64.minValue) :
    numberText n = decimalText n.toInt := by
  have lower : -2 ^ 63 < n.toInt := by
    have atLeast := n.minValue_le_toInt
    have different : n.toInt ≠ Int64.minValue.toInt :=
      fun same => notLeast (Int64.toInt_inj.mp same)
    rw [Int64.toInt_minValue] at atLeast different
    omega
  have upper : n.toInt < 2 ^ 63 := by
    have atMost := n.toInt_le
    rw [Int64.toInt_maxValue] at atMost
    omega
  by_cases negative : n < 0
  · have below : n.toInt < 0 := Int64.lt_iff_toInt_lt.mp negative
    obtain ⟨magnitude, value⟩ := Int.eq_negSucc_of_lt_zero below
    have size : n.toInt = -((magnitude : Int) + 1) :=
      value.trans (Int.negSucc_eq magnitude)
    have fits : magnitude + 1 < 2 ^ 63 := by omega
    have negated : -n = Int64.ofNat (magnitude + 1) := by
      have shape : n = -Int64.ofNat (magnitude + 1) := by
        apply Int64.toInt_inj.mp
        rw [Int64.toInt_neg_ofNat_of_le (by omega), size,
          Int.natCast_add_one]
      rw [shape, Int64.neg_neg]
    rw [value, numberText, if_pos negative, if_pos negative, negated,
      digits_ofNat fits]
    rfl
  · have above : 0 ≤ n.toInt := Int64.le_iff_toInt_le.mp
      (Int64.not_lt.mp negative)
    obtain ⟨magnitude, value⟩ : ∃ magnitude : Nat,
        n.toInt = magnitude :=
      ⟨n.toInt.toNat, by omega⟩
    have fits : magnitude < 2 ^ 63 := by omega
    have same : n = Int64.ofNat magnitude := by
      apply Int64.toInt_inj.mp
      rw [Int64.toInt_ofNat_of_lt fits, value]
    rw [value, numberText, if_neg negative, if_neg negative, same,
      digits_ofNat fits]
    rfl

theorem number_text_decimal_negative :
    numberText (-9223372036854775807) =
      decimalText (Int64.toInt (-9223372036854775807)) :=
  number_text_decimal (-9223372036854775807) (by decide)

end RubyOnBareMetal.Syscall
