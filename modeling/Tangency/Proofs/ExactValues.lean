/-
The exact value of a double, and the binary order of a quotient.

The magnitude bits of a finite double are its significand above a multiple of its power, so they
tell its value.  The binary order of a quotient is the exponent of the greatest power of two in it.
Quotients are compared over the rationals, where powers of two have integer exponents.
-/

import Mathlib.Algebra.Order.Field.Power
import Mathlib.Algebra.Order.Field.Rat
import Mathlib.Data.Nat.Cast.Order.Field
import Mathlib.Tactic.Positivity
import Mathlib.Tactic.Ring
import Tangency.Numeric.Binary64

namespace Tangency

theorem cast_twoTo (exponent : Nat) : ((twoTo exponent : Nat) : ℚ) = 2 ^ exponent := by
  rw [twoTo]
  exact Nat.cast_pow 2 exponent

theorem twoTo_ratio (exponent : Int) :
    ((twoTo exponent.toNat : Nat) : ℚ) / (twoTo (-exponent).toNat : Nat) = 2 ^ exponent := by
  rw [cast_twoTo, cast_twoTo, ← zpow_natCast, ← zpow_natCast, ← zpow_sub₀ two_ne_zero]
  congr 1
  omega

theorem scaled_lt_iff {numerator denominator : Nat} (positive : 0 < denominator) (exponent : Int) :
    numerator * twoTo (-exponent).toNat < denominator * twoTo exponent.toNat ↔
      (numerator : ℚ) / denominator < 2 ^ exponent := by
  have denominatorPos : (0 : ℚ) < denominator := Nat.cast_pos.mpr positive
  have scalePos : (0 : ℚ) < (twoTo (-exponent).toNat : Nat) := Nat.cast_pos.mpr (twoTo_pos _)
  rw [← twoTo_ratio, div_lt_div_iff₀ denominatorPos scalePos, mul_comm denominator]
  exact_mod_cast Iff.rfl

namespace Binary64

/-- The binary order is that of the greatest power of two in a quotient. -/
theorem binaryOrder_bounds {numerator denominator : Nat} (positive : 0 < numerator)
    (denominatorPositive : 0 < denominator) :
    (2 : ℚ) ^ binaryOrder numerator denominator ≤ (numerator : ℚ) / denominator ∧
      (numerator : ℚ) / denominator < 2 ^ (binaryOrder numerator denominator + 1) := by
  have denominatorPos : (0 : ℚ) < denominator := Nat.cast_pos.mpr denominatorPositive
  have numeratorLow : (2 : ℚ) ^ numerator.log2 ≤ numerator := by
    exact_mod_cast Nat.log2_self_le (Nat.ne_of_gt positive)
  have numeratorHigh : (numerator : ℚ) < 2 ^ (numerator.log2 + 1) := by
    exact_mod_cast Nat.lt_log2_self
  have denominatorLow : (2 : ℚ) ^ denominator.log2 ≤ denominator := by
    exact_mod_cast Nat.log2_self_le (Nat.ne_of_gt denominatorPositive)
  have denominatorHigh : (denominator : ℚ) < 2 ^ (denominator.log2 + 1) := by
    exact_mod_cast Nat.lt_log2_self
  -- The difference of the lengths is the order or one more.
  have below : (2 : ℚ) ^ ((numerator.log2 : Int) - denominator.log2 - 1) ≤
      (numerator : ℚ) / denominator := by
    rw [le_div_iff₀ denominatorPos]
    calc (2 : ℚ) ^ ((numerator.log2 : Int) - denominator.log2 - 1) * denominator
        ≤ 2 ^ ((numerator.log2 : Int) - denominator.log2 - 1) * 2 ^ (denominator.log2 + 1) := by
          gcongr
      _ = 2 ^ numerator.log2 := by
          rw [← zpow_natCast, ← zpow_natCast, ← zpow_add₀ two_ne_zero]
          congr 1
          push_cast
          ring
      _ ≤ numerator := numeratorLow
  have above : (numerator : ℚ) / denominator <
      2 ^ ((numerator.log2 : Int) - denominator.log2 + 1) := by
    rw [div_lt_iff₀ denominatorPos]
    calc (numerator : ℚ) < 2 ^ (numerator.log2 + 1) := numeratorHigh
      _ = 2 ^ ((numerator.log2 : Int) - denominator.log2 + 1) * 2 ^ denominator.log2 := by
          rw [← zpow_natCast, ← zpow_natCast, ← zpow_add₀ two_ne_zero]
          congr 1
          push_cast
          ring
      _ ≤ 2 ^ ((numerator.log2 : Int) - denominator.log2 + 1) * denominator := by gcongr
  simp only [binaryOrder, scaled_lt_iff denominatorPositive]
  by_cases small : (numerator : ℚ) / denominator < 2 ^ ((numerator.log2 : Int) - denominator.log2)
  · rw [if_pos small, sub_add_cancel]
    exact ⟨below, small⟩
  · rw [if_neg small]
    exact ⟨le_of_not_gt small, above⟩

theorem exponentField_eq (x : Binary64) : exponentField x = magnitudeBits x / twoTo 52 := by
  have top : twoTo 63 = 9223372036854775808 := rfl
  have shift : twoTo 52 = 4503599627370496 := rfl
  rw [exponentField, magnitudeBits, top, shift]
  omega

theorem fraction_eq (x : Binary64) : fraction x = magnitudeBits x % twoTo 52 := by
  have top : twoTo 63 = 9223372036854775808 := rfl
  have shift : twoTo 52 = 4503599627370496 := rfl
  rw [fraction, magnitudeBits, top, shift]
  omega

theorem magnitudeBits_eq (x : Binary64) :
    magnitudeBits x = exponentField x * twoTo 52 + fraction x := by
  rw [exponentField_eq, fraction_eq, Nat.mul_comm]
  exact (Nat.div_add_mod _ _).symm

theorem fraction_lt (x : Binary64) : fraction x < twoTo 52 := Nat.mod_lt _ (twoTo_pos 52)

theorem exponentField_lt {x : Binary64} (finite : x.isFinite = true) : exponentField x < 2047 := by
  have notTop : exponentField x ≠ 2047 := of_decide_eq_true finite
  have fits : exponentField x < 2048 := Nat.mod_lt _ (by decide)
  omega

theorem isFinite_iff (x : Binary64) : x.isFinite = true ↔ x.magnitudeBits < infinityBits := by
  have fits := x.magnitudeBits_lt
  have top : twoTo 63 = 9223372036854775808 := rfl
  have shift : twoTo 52 = 4503599627370496 := rfl
  rw [isFinite, decide_eq_true_eq, exponentField_eq, infinityBits, shift]
  omega

theorem isNaN_iff_fields (x : Binary64) :
    x.isNaN = true ↔ exponentField x = 2047 ∧ fraction x ≠ 0 := by
  rw [isNaN, category]
  split
  · split <;> simp_all
  · split
    · split <;> simp_all
    · simp_all

theorem isNaN_iff (x : Binary64) : x.isNaN = true ↔ infinityBits < x.magnitudeBits := by
  have fits := x.magnitudeBits_lt
  have top : twoTo 63 = 9223372036854775808 := rfl
  have shift : twoTo 52 = 4503599627370496 := rfl
  rw [isNaN_iff_fields, exponentField_eq, fraction_eq, infinityBits, shift]
  omega

theorem significand_lt (x : Binary64) : significand x < twoTo 53 := by
  have low := fraction_lt x
  have shift : twoTo 53 = twoTo 52 * 2 := twoTo_succ 52
  rw [significand]
  split <;> omega

theorem exponentField_neg (x : Binary64) : exponentField (-x) = exponentField x := by
  rw [exponentField_eq, exponentField_eq, magnitudeBits_neg]

theorem isFinite_neg (x : Binary64) : (-x).isFinite = x.isFinite := by
  rw [isFinite, isFinite, exponentField_neg]

theorem power_neg (x : Binary64) : power (-x) = power x := by
  rw [power, power, exponentField_neg]

theorem magnitudeNumerator_neg (x : Binary64) : magnitudeNumerator (-x) = magnitudeNumerator x := by
  rw [magnitudeNumerator, magnitudeNumerator, significand, significand, exponentField_neg,
    fraction_eq, fraction_eq, magnitudeBits_neg, power_neg]

theorem magnitudeDenominator_neg (x : Binary64) :
    magnitudeDenominator (-x) = magnitudeDenominator x := by
  rw [magnitudeDenominator, magnitudeDenominator, power_neg]

theorem magnitude_eq (x : Binary64) :
    (magnitudeNumerator x : ℚ) / magnitudeDenominator x = significand x * 2 ^ power x := by
  rw [magnitudeNumerator, magnitudeDenominator, Nat.cast_mul, mul_div_assoc, twoTo_ratio]

def rational (x : Binary64) : ℚ :=
  if x.isNegative then -(magnitudeNumerator x / magnitudeDenominator x)
  else magnitudeNumerator x / magnitudeDenominator x

theorem rational_neg (x : Binary64) : (-x).rational = -x.rational := by
  rw [rational, rational, magnitudeNumerator_neg, magnitudeDenominator_neg, isNegative_neg]
  cases x.isNegative with
  | false => rfl
  | true => exact (neg_neg _).symm

theorem abs_rational (x : Binary64) : |x.rational| = significand x * 2 ^ power x := by
  have nonneg : (0 : ℚ) ≤ significand x * 2 ^ power x := by positivity
  rw [rational, magnitude_eq]
  split
  · rw [abs_neg, abs_of_nonneg nonneg]
  · exact abs_of_nonneg nonneg

theorem magnitudeBits_eq_scaled (x : Binary64) :
    magnitudeBits x = (power x + 1074).toNat * twoTo 52 + significand x := by
  rw [magnitudeBits_eq, power, significand]
  by_cases subnormal : exponentField x = 0
  · rw [if_pos subnormal, subnormal]
    rfl
  · rw [if_neg subnormal]
    have scale : (((max (exponentField x) 1 : Nat) : Int) - 1075 + 1074).toNat =
        exponentField x - 1 := by omega
    rw [scale]
    obtain ⟨field, fieldEq⟩ := Nat.exists_eq_succ_of_ne_zero subnormal
    rw [fieldEq, Nat.succ_sub_one, Nat.succ_mul]
    omega

end Binary64

end Tangency
