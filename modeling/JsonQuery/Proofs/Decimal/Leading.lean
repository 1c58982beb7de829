import JsonQuery.Decimal.Spelling
import Mathlib

/-!
# Leading digits

Dyadic and decimal numbers are compared by their values, which are rational. The leading digit of a
positive number stands for the power of ten that is its logarithm, rounded down:
`leadingExponent` finds it for a fraction (`leadingExponent_eq_log`), and `Decimal.leading` reads it
off the digits (`Decimal.leading_eq_log`). Trimming changes neither the value nor, with it, the
leading digit (`Decimal.value_trim`).
-/

namespace JsonQuery

/-! ### Values -/

def Dyadic.value (d : Dyadic) : ℚ := d.significand * 2 ^ d.exponent

def Decimal.value (d : Decimal) : ℚ := d.coefficient * 10 ^ d.exponent

/-- Powers with a negative exponent go below the fraction bar. -/
theorem zpow_eq_div {base : ℚ} (h : base ≠ 0) (e : ℤ) :
    base ^ e = base ^ e.toNat / base ^ (-e).toNat := by
  rw [← zpow_natCast, ← zpow_natCast, ← zpow_sub₀ h, Int.toNat_sub_toNat_neg]

section Dyadic

variable (d : Dyadic)

theorem Dyadic.denominator_pos : 0 < d.denominator := Nat.pow_pos (by decide)

theorem Dyadic.numerator_pos {d : Dyadic} (h : d.significand ≠ 0) : 0 < d.numerator :=
  Nat.mul_pos (Nat.pos_of_ne_zero h) (Nat.pow_pos (by decide))

theorem Dyadic.value_eq_div : d.value = d.numerator / d.denominator := by
  rw [Dyadic.value, zpow_eq_div (by norm_num), Dyadic.numerator, Dyadic.denominator]
  push_cast [Nat.pow_eq]
  exact (mul_div_assoc _ _ _).symm

theorem Dyadic.value_pos {d : Dyadic} (h : d.significand ≠ 0) : 0 < d.value := by
  have : 0 < d.significand := Nat.pos_of_ne_zero h
  rw [Dyadic.value]
  positivity

end Dyadic

/-! ### Logarithms -/

section Log

variable {q : ℚ} {e : ℤ}

theorem zpow_le_iff_le_log (pos : 0 < q) : 10 ^ e ≤ q ↔ e ≤ Int.log 10 q := by
  exact_mod_cast Int.zpow_le_iff_le_log (b := 10) (by decide) pos

theorem lt_zpow_iff_log_lt (pos : 0 < q) : q < 10 ^ e ↔ Int.log 10 q < e := by
  exact_mod_cast Int.lt_zpow_iff_log_lt (b := 10) (by decide) pos

theorem log_eq_of_le_of_lt (low : 10 ^ e ≤ q) (high : q < 10 ^ (e + 1)) : Int.log 10 q = e := by
  have pos : 0 < q := (zpow_pos (by norm_num) e).trans_le low
  rw [zpow_le_iff_le_log pos] at low
  rw [lt_zpow_iff_log_lt pos] at high
  omega

end Log

/-! ### Counting digits -/

section Digits

variable {n : Nat}

theorem digitCount_le_iff {k : Nat} : digitCount n ≤ k ↔ n < 10 ^ k := by
  induction k generalizing n with
  | zero =>
    rw [digitCount, pow_zero]
    split <;> omega
  | succ k ih =>
    rw [digitCount]
    split
    · rename_i zero
      subst zero
      simp
    · rw [Nat.add_le_add_iff_right, ih, Nat.div_lt_iff_lt_mul (by decide), pow_succ]

theorem lt_pow_digitCount (n : Nat) : n < 10 ^ digitCount n := digitCount_le_iff.mp le_rfl

theorem digitCount_pos (h : n ≠ 0) : 0 < digitCount n := by
  rw [digitCount, if_neg h]
  exact Nat.succ_pos _

theorem pow_digitCount_le (h : n ≠ 0) : 10 ^ (digitCount n - 1) ≤ n := by
  have := digitCount_pos h
  rw [← Nat.not_lt, ← digitCount_le_iff]
  omega

theorem length_digits (h : n ≠ 0) : (digits n).length = digitCount n := by
  apply le_antisymm
  · rw [digits, Nat.length_toDigits_le_iff (by decide) (digitCount_pos h)]
    exact lt_pow_digitCount n
  · rw [digitCount_le_iff, digits, ← Nat.length_toDigits_le_iff (by decide) Nat.length_toDigits_pos]

end Digits

/-! ### The leading digit -/

theorem leadingExponent_eq_log {numerator denominator : Nat} (pos : 0 < numerator)
    (pos' : 0 < denominator) :
    leadingExponent numerator denominator = Int.log 10 (numerator / denominator : ℚ) := by
  have above : (0 : ℚ) < numerator := by exact_mod_cast pos
  have below : (0 : ℚ) < denominator := by exact_mod_cast pos'
  rw [leadingExponent]
  symm
  split
  case isTrue large =>
    have some : numerator / denominator ≠ 0 := (Nat.div_pos large pos').ne'
    have count := digitCount_pos some
    have low := (Nat.le_div_iff_mul_le pos').mp (pow_digitCount_le some)
    have high := (Nat.div_lt_iff_lt_mul pos').mp (lt_pow_digitCount (numerator / denominator))
    generalize digitCount (numerator / denominator) = k at count low high
    apply log_eq_of_le_of_lt
    · rw [show (k : ℤ) - 1 = (k - 1 : Nat) by omega, zpow_natCast, le_div_iff₀ below]
      exact_mod_cast low
    · rw [sub_add_cancel, zpow_natCast, div_lt_iff₀ below]
      exact_mod_cast high
  case isFalse small =>
    have some : (denominator - 1) / numerator ≠ 0 := (Nat.div_pos (by omega) pos).ne'
    have count := digitCount_pos some
    have low := (Nat.le_div_iff_mul_le pos).mp (pow_digitCount_le some)
    have high := (Nat.div_lt_iff_lt_mul pos).mp (lt_pow_digitCount ((denominator - 1) / numerator))
    generalize digitCount ((denominator - 1) / numerator) = k at count low high
    apply log_eq_of_le_of_lt
    · rw [zpow_neg, zpow_natCast, le_div_iff₀ below, inv_mul_le_iff₀ (by positivity)]
      exact_mod_cast (show denominator ≤ 10 ^ k * numerator by omega)
    · rw [show -(k : ℤ) + 1 = -(k - 1 : Nat) by omega, zpow_neg, zpow_natCast, div_lt_iff₀ below,
        lt_inv_mul_iff₀ (by positivity)]
      exact_mod_cast (show 10 ^ (k - 1) * numerator < denominator by omega)

theorem Dyadic.leadingExponent_eq_log {d : Dyadic} (h : d.significand ≠ 0) :
    leadingExponent d.numerator d.denominator = Int.log 10 d.value := by
  rw [d.value_eq_div]
  exact JsonQuery.leadingExponent_eq_log (Dyadic.numerator_pos h) d.denominator_pos

namespace Decimal

variable {d : Decimal}

theorem leading_eq_log (h : d.coefficient ≠ 0) : d.leading = Int.log 10 d.value := by
  have count := digitCount_pos h
  have ten : (0 : ℚ) < 10 ^ d.exponent := zpow_pos (by norm_num) _
  rw [leading, length_digits h]
  symm
  apply log_eq_of_le_of_lt
  · have low : (10 : ℚ) ^ (digitCount d.coefficient - 1) ≤ d.coefficient := by
      exact_mod_cast pow_digitCount_le h
    rw [zpow_add₀ (by norm_num), zpow_natCast, mul_comm, value]
    gcongr
  · have high : (d.coefficient : ℚ) < 10 ^ digitCount d.coefficient := by
      exact_mod_cast lt_pow_digitCount d.coefficient
    rw [add_assoc, show ((digitCount d.coefficient - 1 : Nat) : ℤ) + 1 = digitCount d.coefficient by
      omega, zpow_add₀ (by norm_num), zpow_natCast, mul_comm, value]
    gcongr

theorem value_trim (d : Decimal) : d.trim.value = d.value := by
  fun_induction trim d with
  | case1 d h ih =>
    have tens : (d.coefficient : ℚ) = (d.coefficient / 10 : Nat) * 10 := by
      exact_mod_cast (Nat.div_mul_cancel (Nat.dvd_of_mod_eq_zero h.2)).symm
    rw [ih, value, value, zpow_add_one₀ (by norm_num), tens]
    ring
  | case2 d h => rfl

theorem trim_coefficient_mod (h : d.coefficient ≠ 0) : d.trim.coefficient % 10 ≠ 0 := by
  fun_induction trim d with
  | case1 d ends ih =>
    apply ih
    show d.coefficient / 10 ≠ 0
    omega
  | case2 d ends => exact fun zero => ends ⟨h, zero⟩

end Decimal

end JsonQuery
