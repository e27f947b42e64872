/-
Comparisons of doubles as comparisons of their values.

A significand that is not on the finest scale fills its scale, so a greater power has the greater
value whatever the significands are.  `Float` compares powers first and significands after that, and
the other way round below zero.
-/

import Tangency.Proofs.DoubleArithmetic

namespace Tangency.Binary64

open Float.Model (UnpackedFloat)
open Float.Model.UnpackedFloat

theorem abs_rational_lt_of_power_lt {x y : Binary64} (less : power x < power y) :
    |x.rational| < |y.rational| := by
  have fills : twoTo 52 ≤ significand y := by
    have finest := finest_power x
    exact (normal_significand y).resolve_left (by omega)
  have below : (significand x : ℚ) < 2 ^ (53 : ℤ) := by
    exact_mod_cast significand_lt x
  have above : (2 : ℚ) ^ (52 : ℤ) ≤ significand y := by
    exact_mod_cast fills
  rw [abs_rational, abs_rational]
  calc (significand x : ℚ) * 2 ^ power x < 2 ^ (53 : ℤ) * 2 ^ power x := by gcongr
    _ = 2 ^ (52 : ℤ) * 2 ^ (power x + 1) := by
      rw [← zpow_add₀ two_ne_zero, ← zpow_add₀ two_ne_zero]
      congr 1
      ring
    _ ≤ significand y * 2 ^ power y := by
      gcongr
      · exact one_le_two
      · omega

theorem compare_abs_rational (x y : Binary64) :
    compare |x.rational| |y.rational| =
      (compare (power x) (power y)).then (compare (significand x) (significand y)) := by
  rcases lt_trichotomy (power x) (power y) with less | same | greater
  · rw [compare_lt_iff_lt.mpr less, compare_lt_iff_lt.mpr (abs_rational_lt_of_power_lt less)]
    rfl
  · have keepsOrder : StrictMono fun whole : ℕ => (whole : ℚ) * 2 ^ power y :=
      fun _ _ less => mul_lt_mul_of_pos_right (Nat.cast_lt.mpr less) (zpow_pos two_pos _)
    rw [compare_eq_iff_eq.mpr same, abs_rational, abs_rational, same, ← cmp_eq_compare]
    exact (keepsOrder.cmp_map_eq _ _).trans (cmp_eq_compare _ _)
  · rw [compare_gt_iff_gt.mpr greater, compare_gt_iff_gt.mpr (abs_rational_lt_of_power_lt greater)]
    rfl

theorem abs_rational_pos {x : Binary64} (positive : 0 < significand x) : 0 < |x.rational| := by
  rw [abs_rational]
  have : (0 : ℚ) < significand x := Nat.cast_pos.mpr positive
  positivity

theorem rational_of_positive {x : Binary64} (sign : x.signOf = .positive) :
    x.rational = |x.rational| := by
  rw [abs_rational, rational_eq_signed, sign]
  rfl

theorem rational_of_negative {x : Binary64} (sign : x.signOf = .negative) :
    x.rational = -|x.rational| := by
  rw [abs_rational, rational_eq_signed, sign]
  rfl

theorem compare_neg_neg (a b : ℚ) : compare (-a) (-b) = (compare a b).swap := by
  have reverses : StrictAnti fun q : ℚ => -q := fun _ _ less => neg_lt_neg less
  rw [← cmp_eq_compare, ← cmp_eq_compare, cmp_swap]
  exact reverses.cmp_map_eq a b

theorem compare_unpacked {x y : Binary64} (xFinite : x.isFinite = true)
    (yFinite : y.isFinite = true) :
    x.unpacked.compare y.unpacked = some (compare x.rational y.rational) := by
  rcases Nat.eq_zero_or_pos x.significand with xZero | xPos
  · rw [unpacked_eq_zero xFinite xZero, rational_eq_zero xZero]
    rcases Nat.eq_zero_or_pos y.significand with yZero | yPos
    · rw [unpacked_eq_zero yFinite yZero, rational_eq_zero yZero]
      rfl
    · have size := abs_rational_pos yPos
      rw [unpacked_eq_finite yFinite yPos]
      cases sign : y.signOf with
      | positive =>
        rw [rational_of_positive sign, compare_lt_iff_lt.mpr size]
        rfl
      | negative =>
        rw [rational_of_negative sign, compare_gt_iff_gt.mpr (neg_neg_of_pos size)]
        rfl
  · have size := abs_rational_pos xPos
    rw [unpacked_eq_finite xFinite xPos]
    rcases Nat.eq_zero_or_pos y.significand with yZero | yPos
    · rw [unpacked_eq_zero yFinite yZero, rational_eq_zero yZero]
      cases sign : x.signOf with
      | positive =>
        rw [rational_of_positive sign, compare_gt_iff_gt.mpr size]
        rfl
      | negative =>
        rw [rational_of_negative sign, compare_lt_iff_lt.mpr (neg_neg_of_pos size)]
        rfl
    · have size' := abs_rational_pos yPos
      rw [unpacked_eq_finite yFinite yPos]
      cases sign : x.signOf with
      | positive =>
        cases sign' : y.signOf with
        | positive =>
          rw [rational_of_positive sign, rational_of_positive sign', compare_abs_rational]
          rfl
        | negative =>
          rw [rational_of_positive sign, rational_of_negative sign',
            compare_gt_iff_gt.mpr ((neg_neg_of_pos size').trans size)]
          rfl
      | negative =>
        cases sign' : y.signOf with
        | positive =>
          rw [rational_of_negative sign, rational_of_positive sign',
            compare_lt_iff_lt.mpr ((neg_neg_of_pos size).trans size')]
          rfl
        | negative =>
          rw [rational_of_negative sign, rational_of_negative sign', compare_neg_neg,
            compare_abs_rational]
          rfl

theorem isLess_iff {x y : Binary64} (xFinite : x.isFinite = true) (yFinite : y.isFinite = true) :
    Scalar.isLess x y = true ↔ x.rational < y.rational := by
  have machine : Scalar.isLess x y = (x.unpacked.compare y.unpacked == some .lt) := by
    change decide (decide (x.unpacked.lt y.unpacked = true) = true) = x.unpacked.lt y.unpacked
    rw [Bool.decide_eq_true, Bool.decide_eq_true]
  rw [machine, compare_unpacked xFinite yFinite, beq_iff_eq, Option.some.injEq, compare_lt_iff_lt]

theorem isEqual_iff {x y : Binary64} (xFinite : x.isFinite = true) (yFinite : y.isFinite = true) :
    Scalar.isEqual x y = true ↔ x.rational = y.rational := by
  have machine : Scalar.isEqual x y = (x.unpacked.compare y.unpacked == some .eq) := rfl
  rw [machine, compare_unpacked xFinite yFinite, beq_iff_eq, Option.some.injEq, compare_eq_iff_eq]

theorem isAtMost_iff {x y : Binary64} (xFinite : x.isFinite = true) (yFinite : y.isFinite = true) :
    Scalar.isAtMost x y = true ↔ x.rational ≤ y.rational := by
  rw [Scalar.isAtMost, Bool.or_eq_true, isLess_iff xFinite yFinite, isEqual_iff xFinite yFinite,
    le_iff_lt_or_eq]

end Tangency.Binary64
