/-
Powers with a whole exponent as repeated multiplication.

A dual number is raised to a whole power by a closed form, whose slope takes the power
below.  Over exact numbers the value is always that of repeated multiplication.  The
slope is as well, but for the two ends of the form: the power below the zeroth of zero
is undefined, and below the least exponent of a machine word there is none, so the
greatest is taken.
-/

import Mathlib.Algebra.CharZero.Defs
import Mathlib.Algebra.Field.Basic
import Mathlib.Tactic.FieldSimp
import Mathlib.Tactic.Ring
import Tangency.Proofs.RichMeaning

namespace Tangency

universe u

namespace Dual

variable {α : Type u} [RichScalar α]

def copies (a : Dual α) : ℕ → Dual α
  | 0 => Scalar.one
  | count + 1 => copies a count * a

/-- Repeated multiplication. A negative exponent asks for the reciprocal of the product. -/
def wholeProduct (a : Dual α) (exponent : ℤ) : Dual α :=
  if exponent < 0 then (a.copies exponent.natAbs).reciprocal else a.copies exponent.natAbs

end Dual

variable {K : Type u} [Field K] [DecidableEq K]

open Exact

namespace Scalar

variable [ExactMeaning K]

theorem powerOnto_known (result factor : K) (exponent : ℕ) :
    powerOnto (known result) (known factor) exponent = known (result * factor ^ exponent) := by
  induction exponent using Nat.strong_induction_on generalizing result factor with
  | _ exponent ih =>
    have digits : exponent / 2 * 2 + exponent % 2 = exponent := Nat.div_add_mod' exponent 2
    have taken : (if exponent % 2 = 1 then known result * known factor else known result) =
        known (result * factor ^ (exponent % 2)) := by
      rcases Nat.mod_two_eq_zero_or_one exponent with even | odd
      · rw [even, if_neg zero_ne_one, pow_zero, mul_one]
      · rw [odd, if_pos rfl, known_mul, pow_one]
    rw [powerOnto]
    split
    · rename_i last
      rw [last, Nat.zero_mul, Nat.zero_add] at digits
      rw [taken, digits]
    · rename_i further
      have power :
          factor ^ exponent = factor ^ (exponent % 2) * (factor * factor) ^ (exponent / 2) := by
        rw [← sq, ← pow_mul, ← pow_add, Nat.mul_comm, Nat.add_comm, digits]
      rw [taken, known_mul, ih _ (by omega), power, mul_assoc]

theorem wholePower_known {base : K} {exponent : ℤ} (allowed : base ≠ 0 ∨ 0 ≤ exponent) :
    wholePower (known base) exponent = known (base ^ exponent) := by
  rw [wholePower, one_eq, powerOnto_known, one_mul]
  rcases lt_or_ge exponent 0 with negative | nonneg
  · have nonzero : base ≠ 0 := allowed.resolve_right (not_le.mpr negative)
    obtain ⟨count, rfl⟩ := Int.exists_eq_neg_ofNat negative.le
    rw [if_pos negative, Int.natAbs_neg, Int.natAbs_natCast, zpow_neg, zpow_natCast, ← one_div]
    exact known_div_of_ne_zero _ (pow_ne_zero _ nonzero)
  · obtain ⟨count, rfl⟩ := Int.eq_ofNat_of_zero_le nonneg
    rw [if_neg (not_lt.mpr nonneg), Int.natAbs_natCast, zpow_natCast]

theorem wholePower_zero_of_neg {exponent : ℤ} (negative : exponent < 0) :
    wholePower (known (0 : K)) exponent = .undefined := by
  have counted : exponent.natAbs ≠ 0 := by omega
  rw [wholePower, if_pos negative, one_eq, powerOnto_known, zero_pow counted, mul_zero]
  exact if_pos rfl

theorem whole_known (n : ℤ) : (whole n : Exact K) = known (n : K) := by
  have natural (count : ℕ) : (Scalar.natural count : Exact K) = known (count : K) := rfl
  rw [whole, natural, neg_known]
  rcases lt_or_ge n 0 with negative | nonneg
  · obtain ⟨count, rfl⟩ := Int.exists_eq_neg_ofNat negative.le
    rw [if_pos negative, Int.natAbs_neg, Int.natAbs_natCast, Int.cast_neg, Int.cast_natCast]
  · obtain ⟨count, rfl⟩ := Int.eq_ofNat_of_zero_le nonneg
    rw [if_neg (not_lt.mpr nonneg), Int.natAbs_natCast, Int.cast_natCast]

end Scalar

namespace Dual

variable [RichMeaning K] {value slope : K}

def exactly (value slope : K) : Dual (Exact K) := ⟨known value, known slope⟩

theorem copies_exactly (value slope : K) (count : ℕ) :
    (exactly value slope).copies count =
      exactly (value ^ count) (count * value ^ (count - 1) * slope) := by
  induction count with
  | zero =>
    rw [pow_zero, Nat.cast_zero, zero_mul, zero_mul]
    change Dual.mk (Scalar.one : Exact K) Scalar.zero = _
    rw [one_eq, zero_eq]
    rfl
  | succ count ih =>
    have below : count * value ^ (count - 1) * value = count * value ^ count := by
      cases count with
      | zero => rw [Nat.cast_zero, zero_mul, zero_mul]
      | succ count => rw [Nat.add_sub_cancel, mul_assoc, ← pow_succ]
    have total : value ^ count * slope + count * value ^ (count - 1) * slope * value =
        (count + 1) * value ^ count * slope := by
      rw [mul_right_comm, below]
      ring
    rw [copies, ih, Nat.add_sub_cancel, Nat.cast_succ, ← total, pow_succ]
    rfl

theorem reciprocal_exactly (nonzero : value ≠ 0) :
    (exactly value slope).reciprocal = exactly value⁻¹ (-(slope / value ^ 2)) := by
  have inverse : known 1 / known value = known value⁻¹ := by
    rw [← one_div]
    exact known_div_of_ne_zero _ nonzero
  have quotient : known (0 * value - 1 * slope) / known (value * value) =
      known (-(slope / value ^ 2)) := by
    rw [zero_mul, one_mul, zero_sub, ← sq, ← neg_div]
    exact known_div_of_ne_zero _ (pow_ne_zero 2 nonzero)
  unfold reciprocal
  rw [one_eq]
  change Dual.mk (known 1 / known value)
    ((Scalar.zero * known value - known (1 * slope)) / known (value * value)) = _
  rw [zero_eq, known_mul, known_sub, inverse, quotient]
  rfl

theorem reciprocal_exactly_zero (slope : K) :
    (exactly 0 slope).reciprocal = ⟨.undefined, .undefined⟩ := by
  have noInverse : known (1 : K) / known 0 = .undefined := if_pos rfl
  have noSquare : known (0 * (0 : K) - 1 * slope) / known (0 * (0 : K)) = .undefined :=
    if_pos (zero_mul 0)
  unfold reciprocal
  rw [one_eq]
  change Dual.mk (known 1 / known 0)
    ((Scalar.zero * known 0 - known (1 * slope)) / known (0 * 0)) = _
  rw [zero_eq, known_mul, known_sub, noInverse, noSquare]

theorem wholeProduct_exactly {exponent : ℤ} (allowed : value ≠ 0 ∨ 0 < exponent) (slope : K) :
    (exactly value slope).wholeProduct exponent =
      exactly (value ^ exponent) (exponent * value ^ (exponent - 1) * slope) := by
  unfold wholeProduct
  rcases lt_or_ge exponent 0 with negative | nonneg
  · have nonzero : value ≠ 0 := allowed.resolve_right (not_lt.mpr negative.le)
    obtain ⟨count, rfl⟩ := Int.exists_eq_neg_ofNat negative.le
    obtain ⟨below, rfl⟩ : ∃ below, count = below + 1 := Nat.exists_eq_succ_of_ne_zero (by omega)
    have total : -((↑(below + 1) : K) * value ^ below * slope / (value ^ (below + 1)) ^ 2) =
        -↑(below + 1) * ((value ^ (below + 1))⁻¹ * value⁻¹) * slope := by
      field_simp
      ring
    rw [if_pos negative, Int.natAbs_neg, Int.natAbs_natCast, copies_exactly,
      reciprocal_exactly (pow_ne_zero _ nonzero), Nat.add_sub_cancel, total, zpow_sub_one₀ nonzero,
      zpow_neg, zpow_natCast, Int.cast_neg, Int.cast_natCast]
  · obtain ⟨count, rfl⟩ := Int.eq_ofNat_of_zero_le nonneg
    rw [if_neg (not_lt.mpr nonneg), Int.natAbs_natCast, copies_exactly, zpow_natCast,
      Int.cast_natCast]
    cases count with
    | zero => rw [Nat.cast_zero, zero_mul, zero_mul, zero_mul, zero_mul]
    | succ below =>
      rw [Nat.add_sub_cancel, Nat.cast_succ (R := ℤ), Int.add_sub_cancel, zpow_natCast]

theorem wholeProduct_zero_of_neg {exponent : ℤ} (negative : exponent < 0) (slope : K) :
    (exactly 0 slope).wholeProduct exponent = ⟨.undefined, .undefined⟩ := by
  have counted : exponent.natAbs ≠ 0 := by omega
  rw [wholeProduct, if_pos negative, copies_exactly, zero_pow counted]
  exact reciprocal_exactly_zero _

/-! ### The closed form -/

theorem toInt_sub_one {exponent : Int32} (above : exponent ≠ Int32.minValue) :
    (exponent - 1).toInt = exponent.toInt - 1 := by
  have least := exponent.le_toInt
  have greatest := exponent.toInt_lt
  have notLeast : exponent.toInt ≠ -2 ^ 31 := by
    rw [← Int32.toInt_minValue]
    exact fun same => above (Int32.toInt_inj.mp same)
  rw [Int32.toInt_sub, Int32.toInt_one]
  apply Int.bmod_eq_of_le <;> omega

theorem toInt_minValue_sub_one : (Int32.minValue - 1).toInt = 2 ^ 31 - 1 := by decide

theorem wholePower_eq {exponent : Int32} (allowed : value ≠ 0 ∨ 0 ≤ exponent.toInt)
    (below : value ≠ 0 ∨ 0 ≤ (exponent - 1).toInt) (slope : K) :
    (exactly value slope).wholePower exponent =
      exactly (value ^ exponent.toInt)
        (exponent.toInt * value ^ (exponent - 1).toInt * slope) := by
  unfold wholePower exactly
  rw [Scalar.wholePower_known allowed, Scalar.wholePower_known below, Scalar.whole_known, known_mul,
    known_mul]

theorem wholePower_value (value slope : K) (exponent : Int32) :
    ((exactly value slope).wholePower exponent).value =
      ((exactly value slope).wholeProduct exponent.toInt).value := by
  have product : ((exactly value slope).wholeProduct exponent.toInt).value =
      if exponent.toInt < 0 then Scalar.one / known (value ^ exponent.toInt.natAbs)
      else known (value ^ exponent.toInt.natAbs) := by
    rw [wholeProduct, copies_exactly]
    exact apply_ite Dual.value _ _ _
  rw [product, ← one_mul (value ^ exponent.toInt.natAbs), ← Scalar.powerOnto_known, ← one_eq]
  rfl

theorem wholePower_zero_zero (slope : K) :
    (exactly 0 slope).wholePower 0 = ⟨known 1, .undefined⟩ := by
  have value : Scalar.wholePower (known (0 : K)) (0 : Int32).toInt = known 1 := by
    rw [Int32.toInt_zero, Scalar.wholePower_known (.inr le_rfl), zpow_zero]
  have below : Scalar.wholePower (known (0 : K)) ((0 : Int32) - 1).toInt = .undefined :=
    Scalar.wholePower_zero_of_neg (by decide)
  unfold wholePower exactly
  rw [value, below, Scalar.whole_known]
  rfl

theorem wholePower_zero_of_neg {exponent : Int32} (negative : exponent.toInt < 0)
    (above : exponent ≠ Int32.minValue) (slope : K) :
    (exactly 0 slope).wholePower exponent = ⟨.undefined, .undefined⟩ := by
  have below : (exponent - 1).toInt < 0 := by
    rw [toInt_sub_one above]
    omega
  unfold wholePower exactly
  rw [Scalar.wholePower_zero_of_neg negative, Scalar.wholePower_zero_of_neg below,
    Scalar.whole_known]
  rfl

theorem wholePower_eq_wholeProduct {exponent : Int32} (notZeroth : exponent = 0 → value ≠ 0)
    (notLeast : exponent ≠ Int32.minValue) (slope : K) :
    (exactly value slope).wholePower exponent =
      (exactly value slope).wholeProduct exponent.toInt := by
  have closed (allowed : value ≠ 0 ∨ 0 < exponent.toInt) :
      (exactly value slope).wholePower exponent =
        (exactly value slope).wholeProduct exponent.toInt := by
    have below : value ≠ 0 ∨ 0 ≤ (exponent - 1).toInt := by
      rw [toInt_sub_one notLeast]
      exact allowed.imp_right (by omega)
    rw [wholePower_eq (allowed.imp_right le_of_lt) below, wholeProduct_exactly allowed,
      toInt_sub_one notLeast]
  rcases lt_trichotomy exponent.toInt 0 with negative | zero | positive
  · by_cases atZero : value = 0
    · rw [atZero, wholePower_zero_of_neg negative notLeast, wholeProduct_zero_of_neg negative]
    · exact closed (.inl atZero)
  · exact closed (.inl (notZeroth (Int32.toInt_inj.mp zero)))
  · exact closed (.inr positive)

/-- The greatest exponent stands for the one below the least, and has a power of zero. -/
theorem wholePower_zero_minValue_slope (slope : K) :
    ((exactly 0 slope).wholePower Int32.minValue).slope = known 0 := by
  have below : Scalar.wholePower (known (0 : K)) (Int32.minValue - 1).toInt = known 0 := by
    rw [toInt_minValue_sub_one, Scalar.wholePower_known (.inr (by norm_num)),
      zero_zpow _ (by norm_num)]
  unfold wholePower exactly
  rw [below, Scalar.whole_known, known_mul, known_mul, mul_zero, zero_mul]

theorem wholePower_minValue_iff [CharZero K] (nonzero : value ≠ 0) (slope : K) :
    (exactly value slope).wholePower Int32.minValue =
        (exactly value slope).wholeProduct Int32.minValue.toInt ↔
      slope = 0 ∨ value ^ UInt32.size = 1 := by
  -- One below the least word is the greatest, so the exponents differ by the number of words.
  have apart : (Int32.minValue - 1).toInt = Int32.minValue.toInt - 1 + (UInt32.size : ℕ) := by
    rw [toInt_minValue_sub_one, Int32.toInt_minValue]
    norm_num
  have factor : (Int32.minValue.toInt : K) * value ^ (Int32.minValue.toInt - 1) ≠ 0 :=
    mul_ne_zero (Int.cast_ne_zero.mpr (by decide)) (zpow_ne_zero _ nonzero)
  rw [wholePower_eq (.inl nonzero) (.inl nonzero), wholeProduct_exactly (.inl nonzero), apart,
    zpow_add₀ nonzero, zpow_natCast, ← mul_assoc]
  simp only [exactly, Dual.mk.injEq, true_and, known.injEq]
  rw [mul_assoc, mul_right_inj' factor, mul_left_eq_self₀, or_comm]

end Dual

/-- The power of a dual number has the value of repeated multiplication. It has the slope as well,
except in two cases: the zeroth power of zero, and the least exponent unless the number is at rest
or its value is a root of unity of the number of words. -/
theorem wholePower_eq_wholeProduct_iff [RichMeaning K] [CharZero K] (value slope : K)
    (exponent : Int32) :
    ((Dual.exactly value slope).wholePower exponent).value =
        ((Dual.exactly value slope).wholeProduct exponent.toInt).value ∧
      ((Dual.exactly value slope).wholePower exponent =
          (Dual.exactly value slope).wholeProduct exponent.toInt ↔
        (exponent = 0 → value ≠ 0) ∧
          (exponent = Int32.minValue → value ≠ 0 ∧ (slope = 0 ∨ value ^ UInt32.size = 1))) := by
  refine ⟨Dual.wholePower_value value slope exponent, ?_, ?_⟩
  · intro same
    have notZeroth (zeroth : exponent = 0) : value ≠ 0 := by
      intro zero
      rw [zeroth, zero, Dual.wholePower_zero_zero] at same
      cases congrArg Dual.slope same
    refine ⟨notZeroth, fun least => ?_⟩
    subst least
    have nonzero : value ≠ 0 := by
      intro zero
      rw [zero, Dual.wholeProduct_zero_of_neg (by decide)] at same
      have slopes := congrArg Dual.slope same
      rw [Dual.wholePower_zero_minValue_slope] at slopes
      cases slopes
    exact ⟨nonzero, (Dual.wholePower_minValue_iff nonzero slope).mp same⟩
  · intro ends
    by_cases isLeast : exponent = Int32.minValue
    · obtain ⟨nonzero, rests⟩ := ends.2 isLeast
      rw [isLeast]
      exact (Dual.wholePower_minValue_iff nonzero slope).mpr rests
    · exact Dual.wholePower_eq_wholeProduct ends.1 isLeast slope

/-- Minus one is such a root, so its least power is that of repeated multiplication, as is a cube of
zero. -/
theorem wholePower_eq_wholeProduct_roots :
    (Dual.exactly (-1 : ℝ) 1).wholePower Int32.minValue =
        (Dual.exactly (-1 : ℝ) 1).wholeProduct Int32.minValue.toInt ∧
      (Dual.exactly (0 : ℝ) 1).wholePower 3 =
        (Dual.exactly (0 : ℝ) 1).wholeProduct (3 : Int32).toInt := by
  have nonzero : (-1 : ℝ) ≠ 0 := by norm_num
  have root : (-1 : ℝ) ^ UInt32.size = 1 := Even.neg_one_pow (by decide)
  constructor
  · apply (wholePower_eq_wholeProduct_iff (-1 : ℝ) 1 Int32.minValue).2.mpr
    exact ⟨fun _ => nonzero, fun _ => ⟨nonzero, .inr root⟩⟩
  · apply (wholePower_eq_wholeProduct_iff (0 : ℝ) 1 3).2.mpr
    exact ⟨fun zeroth => absurd zeroth (by decide), fun least => absurd least (by decide)⟩

/-- The zeroth power of zero is not the empty product, over doubles either, and the least power of
two is not the reciprocal of a product. -/
theorem wholePower_ne_wholeProduct :
    (Dual.exactly (0 : ℝ) 1).wholePower 0 ≠ (Dual.exactly (0 : ℝ) 1).wholeProduct 0 ∧
      ((⟨.zero, .one⟩ : Dual Binary64).wholePower 0).slope.isNaN = true ∧
      ((⟨.zero, .one⟩ : Dual Binary64).wholeProduct 0).slope.isNaN = false ∧
      (Dual.exactly (2 : ℝ) 1).wholePower Int32.minValue ≠
        (Dual.exactly (2 : ℝ) 1).wholeProduct Int32.minValue.toInt := by
  refine ⟨?_, by decide +kernel, by decide +kernel, ?_⟩
  · intro same
    rw [Dual.wholePower_zero_zero] at same
    cases congrArg Dual.slope same
  · intro same
    have large : (1 : ℝ) < 2 ^ UInt32.size := one_lt_pow₀ one_lt_two (by decide)
    rcases (Dual.wholePower_minValue_iff two_ne_zero (1 : ℝ)).mp same with rests | root
    · exact one_ne_zero rests
    · exact large.ne' root

end Tangency
