/-
Which grids of doubles are finite.

The index formula never leaves the range between the two ends of a grid, not even through rounding:
the quotient of an index by the steps lies between zero and two, so the half width is multiplied by
something between minus one and one.  All points are finite therefore exactly when the end that is
farther from zero is, and that one lies at the size of the anchor plus the half width.

Settings that pass the check keep neither the half width nor that sum from overflowing.
-/

import Tangency.Proofs.DoubleArithmetic
import Tangency.Settings

namespace Tangency.GridSettings

open Binary64

section Quotient

variable {index steps : ℕ} (stepsPos : 0 < steps) (inside : index ≤ 2 * steps)
  (fits : 2 * steps < 2 ^ 64)

include stepsPos fits

theorem roundsTo_quotient (index : ℕ) (below : index < 2 ^ 64) :
    RoundsTo (ofNat index / ofNat steps) ((ofNat index).rational / (ofNat steps).rational) :=
  roundsTo_div (isFinite_ofNat below) (isFinite_ofNat (by omega))
    (rational_ofNat_pos stepsPos (by omega)).ne'

include inside

theorem quotient_bounds :
    (ofNat index / ofNat steps).isFinite = true ∧ 0 ≤ (ofNat index / ofNat steps).rational ∧
      (ofNat index / ofNat steps).rational ≤ 2 := by
  have rounds := roundsTo_quotient stepsPos fits index (by omega)
  have dividend := rational_ofNat_nonneg (n := index) (by omega)
  have divisor := rational_ofNat_pos stepsPos (by omega)
  have nonneg : 0 ≤ (ofNat index).rational / (ofNat steps).rational := by positivity
  have below : (ofNat index).rational / (ofNat steps).rational ≤ 2 := by
    rw [div_le_iff₀ divisor, ← rational_ofNat_double stepsPos fits]
    exact rational_ofNat_mono inside fits
  have two : RoundsTo (ofNat 2) (ofNat 2).rational := roundsTo_rational (by decide)
  have size : |(ofNat index).rational / (ofNat steps).rational| ≤ |(ofNat 2).rational| := by
    rwa [abs_of_nonneg nonneg, rational_ofNat_two, abs_two]
  have finite := rounds.isFinite_of_abs_le two size (by decide)
  have bound := rounds.abs_rational_le two size (by decide)
  rw [rational_ofNat_two, abs_two] at bound
  exact ⟨finite, rounds.rational_nonneg nonneg finite, (le_abs_self _).trans bound⟩

theorem offset_bounds :
    (ofNat index / ofNat steps - ofNat 1).isFinite = true ∧
      |(ofNat index / ofNat steps - ofNat 1).rational| ≤ 1 := by
  obtain ⟨finite, low, high⟩ := quotient_bounds stepsPos inside fits
  have rounds := roundsTo_sub finite (isFinite_ofNat (n := 1) (by norm_num))
  have one : RoundsTo (ofNat 1) (ofNat 1).rational := roundsTo_rational (by decide)
  have size : |(ofNat index / ofNat steps).rational - (ofNat 1).rational| ≤
      |(ofNat 1).rational| := by
    rw [rational_ofNat_one, abs_one, abs_le]
    constructor <;> linarith
  refine ⟨rounds.isFinite_of_abs_le one size (by decide), ?_⟩
  have bound := rounds.abs_rational_le one size (by decide)
  rwa [rational_ofNat_one, abs_one] at bound

omit inside

theorem offset_first : (ofNat 0 / ofNat steps - ofNat 1).rational = -1 := by
  have quotient := roundsTo_quotient stepsPos fits 0 (by norm_num)
  rw [rational_ofNat_zero, zero_div, ← rational_ofNat_zero] at quotient
  obtain ⟨finite, value⟩ := quotient.rational_eq (by decide)
  have rounds := roundsTo_sub finite (isFinite_ofNat (n := 1) (by norm_num))
  rw [value, rational_ofNat_zero, zero_sub, ← rational_neg] at rounds
  rw [(rounds.rational_eq (by decide)).2, rational_neg, rational_ofNat_one]

theorem offset_last : (ofNat (2 * steps) / ofNat steps - ofNat 1).rational = 1 := by
  have positive := rational_ofNat_pos stepsPos (by omega)
  have quotient := roundsTo_quotient stepsPos fits (2 * steps) fits
  rw [rational_ofNat_double stepsPos fits, mul_div_cancel_right₀ _ positive.ne',
    ← rational_ofNat_two] at quotient
  obtain ⟨finite, value⟩ := quotient.rational_eq (by decide)
  have rounds := roundsTo_sub finite (isFinite_ofNat (n := 1) (by norm_num))
  have rest : (ofNat 2).rational - (ofNat 1).rational = (ofNat 1).rational := by
    rw [rational_ofNat_two, rational_ofNat_one]
    norm_num
  rw [value, rest] at rounds
  rw [(rounds.rational_eq (by decide)).2, rational_ofNat_one]

end Quotient

variable {settings : GridSettings Binary64} {anchor : Binary64}

theorem mem_points_iff (fits : 2 * settings.stepsPerSide.toNat + 1 < 2 ^ 64) {x : Binary64} :
    x ∈ settings.points anchor ↔ ∃ index ≤ 2 * settings.stepsPerSide.toNat,
      x = anchor + settings.halfWidth anchor *
        (ofNat index / ofNat settings.stepsPerSide.toNat - ofNat 1) := by
  rw [points, toNat_pointCount fits, List.mem_map]
  simp only [List.mem_range, Nat.lt_succ_iff]
  exact exists_congr fun index => and_congr_right fun _ => eq_comm

theorem rational_halfWidth_nonneg (accepted : settings.fault? = none)
    (finite : anchor.isFinite = true) (finiteWidth : (settings.halfWidth anchor).isFinite = true) :
    0 ≤ (settings.halfWidth anchor).rational := by
  obtain ⟨⟨leastFinite, leastAllowed⟩, ⟨scaleFinite, scaleAllowed⟩, -⟩ :=
    fault?_eq_none_iff.mp accepted
  unfold halfWidth Scalar.larger at finiteWidth ⊢
  split at finiteWidth
  · rename_i isLeast
    rw [if_pos isLeast]
    rw [Scalar.isAtMost, Bool.or_eq_false_iff] at leastAllowed
    exact rational_nonneg_of_isLess leastFinite leastAllowed.1
  · rename_i isScaled
    rw [if_neg isScaled]
    have scaleNonneg := rational_nonneg_of_isLess scaleFinite scaleAllowed
    have rounds := roundsTo_mul ((isFinite_abs anchor).trans finite) scaleFinite
    refine rounds.rational_nonneg ?_ finiteWidth
    rw [rational_abs]
    positivity

/-- A finite half width is multiplied by something between minus one and one, so no point leaves the
range of the sum. -/
theorem isFinite_point (accepted : settings.fault? = none) (finite : anchor.isFinite = true)
    (fits : 2 * settings.stepsPerSide.toNat + 1 < 2 ^ 64)
    (finiteEnd : (anchor.abs + settings.halfWidth anchor).isFinite = true) {index : ℕ}
    (inside : index ≤ 2 * settings.stepsPerSide.toNat) :
    (anchor + settings.halfWidth anchor *
      (ofNat index / ofNat settings.stepsPerSide.toNat - ofNat 1)).isFinite = true := by
  have stepsPos : 0 < settings.stepsPerSide.toNat :=
    Nat.pos_of_ne_zero (fault?_eq_none_iff.mp accepted).2.2
  have finiteWidth := (isFinite_of_add finiteEnd).2
  have nonneg := rational_halfWidth_nonneg accepted finite finiteWidth
  obtain ⟨finiteOffset, bound⟩ := offset_bounds stepsPos inside (by omega)
  generalize ofNat index / ofNat settings.stepsPerSide.toNat - ofNat 1 = offset at *
  generalize settings.halfWidth anchor = width at *
  have shrinks : |width.rational * offset.rational| ≤ |width.rational| := by
    rw [abs_mul]
    exact mul_le_of_le_one_right (abs_nonneg _) bound
  have product := roundsTo_mul finiteWidth finiteOffset
  have finiteProduct :=
    product.isFinite_of_abs_le (roundsTo_rational finiteWidth) shrinks finiteWidth
  have size := product.abs_rational_le (roundsTo_rational finiteWidth) shrinks finiteWidth
  have sum := roundsTo_add finite finiteProduct
  have farthest := roundsTo_add ((isFinite_abs anchor).trans finite) finiteWidth
  refine sum.isFinite_of_abs_le farthest ?_ finiteEnd
  rw [rational_abs, abs_of_nonneg (add_nonneg (abs_nonneg _) nonneg)]
  rw [abs_of_nonneg nonneg] at size
  exact (abs_add_le _ _).trans (add_le_add_right size _)

theorem isFinite_end (accepted : settings.fault? = none) (finite : anchor.isFinite = true)
    (fits : 2 * settings.stepsPerSide.toNat + 1 < 2 ^ 64)
    (finitePoints : ∀ x ∈ settings.points anchor, x.isFinite = true) :
    (anchor.abs + settings.halfWidth anchor).isFinite = true := by
  have stepsPos : 0 < settings.stepsPerSide.toNat :=
    Nat.pos_of_ne_zero (fault?_eq_none_iff.mp accepted).2.2
  have first := finitePoints _ ((mem_points_iff fits).mpr ⟨0, Nat.zero_le _, rfl⟩)
  have last := finitePoints _ ((mem_points_iff fits).mpr ⟨_, le_rfl, rfl⟩)
  have finiteWidth := (isFinite_of_mul (isFinite_of_add first).2).1
  have nonneg := rational_halfWidth_nonneg accepted finite finiteWidth
  have farthest := roundsTo_add ((isFinite_abs anchor).trans finite) finiteWidth
  obtain ⟨finiteFirst, firstEq⟩ := rational_mul_unit finiteWidth
    (isFinite_of_mul (isFinite_of_add first).2).2 (.inr (offset_first stepsPos (by omega)))
  obtain ⟨finiteLast, lastEq⟩ := rational_mul_unit finiteWidth
    (isFinite_of_mul (isFinite_of_add last).2).2 (.inl (offset_last stepsPos (by omega)))
  rw [offset_first stepsPos (by omega)] at firstEq
  rw [offset_last stepsPos (by omega)] at lastEq
  rw [rational_abs] at farthest
  rcases le_total 0 anchor.rational with right | left
  · refine farthest.isFinite_of_abs_le (roundsTo_add finite finiteLast) (le_of_eq ?_) last
    rw [lastEq, mul_one, abs_of_nonneg right]
  · refine farthest.isFinite_of_abs_le (roundsTo_add finite finiteFirst) (le_of_eq ?_) first
    rw [firstEq, abs_of_nonpos left, ← abs_neg]
    congr 1
    ring

/-- Over doubles the points of a grid are finite exactly if the size of the anchor and the half
width have a finite sum. -/
theorem grid_isFinite_iff (accepted : settings.fault? = none) (finite : anchor.isFinite = true)
    (fits : 2 * settings.stepsPerSide.toNat + 1 < 2 ^ 64) :
    (∀ x ∈ settings.points anchor, x.isFinite = true) ↔
      (anchor.abs + settings.halfWidth anchor).isFinite = true := by
  refine ⟨isFinite_end accepted finite fits, fun finiteEnd x member => ?_⟩
  obtain ⟨index, inside, rfl⟩ := (mem_points_iff fits).mp member
  exact isFinite_point accepted finite fits finiteEnd inside

/-- At `7e307` the half width of the standard settings is one and a half times as great, and the sum
is near the greatest double. -/
theorem grid_isFinite_standard :
    (standard : GridSettings Binary64).fault? = none ∧
      (⟨0x7FD8EBBB5516E5AD⟩ : Binary64).isFinite = true ∧
      2 * (standard : GridSettings Binary64).stepsPerSide.toNat + 1 < 2 ^ 64 ∧
      ∀ x ∈ (standard : GridSettings Binary64).points ⟨0x7FD8EBBB5516E5AD⟩, x.isFinite = true := by
  have accepted : (standard : GridSettings Binary64).fault? = none := by decide +kernel
  have finite : (⟨0x7FD8EBBB5516E5AD⟩ : Binary64).isFinite = true := by decide
  have fits : 2 * (standard : GridSettings Binary64).stepsPerSide.toNat + 1 < 2 ^ 64 := by decide
  exact ⟨accepted, finite, fits, (grid_isFinite_iff accepted finite fits).mpr (by decide +kernel)⟩

/-- At `1.5e308` the half width itself overflows. The ends are infinite, and in the middle an
infinity is multiplied by zero. -/
theorem grid_overflows :
    ({ standard with stepsPerSide := 1 } : GridSettings Binary64).fault? = none ∧
      (⟨0x7FEAB36D48E1ACF0⟩ : Binary64).isFinite = true ∧
      (({ standard with stepsPerSide := 1 } : GridSettings Binary64).points
        ⟨0x7FEAB36D48E1ACF0⟩).map category = [.infinite, .notANumber, .infinite] := by
  decide +kernel

end Tangency.GridSettings
