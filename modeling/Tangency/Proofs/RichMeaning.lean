/-
Exact arithmetic with the further functions.

The functions that formulas do not use have a meaning that is a parameter as well, and
pass an undefined operand on.  Over the real numbers they have their usual domains.  A
rounding gives whole numbers, so around a point where it is continuous it rests; the
roundings toward zero and away from it grow with the magnitude, which shows where they
jump.
-/

import Mathlib.Analysis.SpecialFunctions.Arcosh
import Mathlib.Analysis.SpecialFunctions.Arsinh
import Mathlib.Analysis.SpecialFunctions.Artanh
import Mathlib.Analysis.SpecialFunctions.Complex.Arg
import Tangency.Dual.Functions
import Tangency.Proofs.RealMeaning

namespace Tangency

universe u

open Filter Topology

/-- The further operations on exact numbers that a field does not come with. -/
class RichMeaning (K : Type u) extends ExactMeaning K where
  logOfTwo : K
  floor : K → Exact K
  ceiling : K → Exact K
  round : K → Exact K
  truncate : K → Exact K
  fractional : K → Exact K
  signUnit : K → Exact K
  remainder : K → K → Exact K
  exp2 : K → Exact K
  log2 : K → Exact K
  expLessOne : K → Exact K
  lnOneMore : K → Exact K
  asinh : K → Exact K
  acosh : K → Exact K
  atanh : K → Exact K
  atan2 : K → K → Exact K

instance [Field K] [DecidableEq K] [RichMeaning K] : RichScalar (Exact K) where
  logOfTwo := .known RichMeaning.logOfTwo
  floor := Exact.lift RichMeaning.floor
  ceiling := Exact.lift RichMeaning.ceiling
  round := Exact.lift RichMeaning.round
  truncate := Exact.lift RichMeaning.truncate
  fractional := Exact.lift RichMeaning.fractional
  signUnit := Exact.lift RichMeaning.signUnit
  remainder := Exact.lift₂ RichMeaning.remainder
  exp2 := Exact.lift RichMeaning.exp2
  log2 := Exact.lift RichMeaning.log2
  expLessOne := Exact.lift RichMeaning.expLessOne
  lnOneMore := Exact.lift RichMeaning.lnOneMore
  asinh := Exact.lift RichMeaning.asinh
  acosh := Exact.lift RichMeaning.acosh
  atanh := Exact.lift RichMeaning.atanh
  atan2 := Exact.lift₂ RichMeaning.atan2

noncomputable def wholePart (a : ℝ) : ℤ := if 0 ≤ a then ⌊a⌋ else ⌈a⌉

/-- The nearest whole number, a half away from zero. -/
noncomputable def nearestWhole (a : ℝ) : ℤ := if 0 ≤ a then round a else -round (-a)

noncomputable def unitOfSign (a : ℝ) : ℤ := if 0 ≤ a then 1 else -1

noncomputable def angleAt (ordinate abscissa : ℝ) : ℝ := Complex.arg ⟨abscissa, ordinate⟩

noncomputable instance : RichMeaning ℝ where
  logOfTwo := Real.log (2 : ℕ)
  floor a := .known ⌊a⌋
  ceiling a := .known ⌈a⌉
  round a := .known (nearestWhole a)
  truncate a := .known (wholePart a)
  fractional a := .known (a - wholePart a)
  signUnit a := .known (unitOfSign a)
  remainder a b := Exact.onDomain (b ≠ 0) (a - b * wholePart (a / b))
  exp2 a := .known (((2 : ℕ) : ℝ) ^ a)
  log2 a := Exact.onDomain (0 < a) (Real.log a / Real.log (2 : ℕ))
  expLessOne a := .known (Real.exp a - 1)
  lnOneMore a := Exact.onDomain (-1 < a) (Real.log (1 + a))
  asinh a := .known (Real.arsinh a)
  acosh a := Exact.onDomain (1 ≤ a) (Real.arcosh a)
  atanh a := Exact.onDomain (-1 < a ∧ a < 1) (Real.artanh a)
  atan2 a b := .known (angleAt a b)

/-! ### Where a rounding rests -/

/-- Around the point the rounding gives one whole number. -/
def Rests (rounding : ℝ → ℤ) (a : ℝ) : Prop := ∀ᶠ b in 𝓝 a, rounding b = rounding a

theorem rests_of_continuousAt {rounding : ℝ → ℤ} {a : ℝ}
    (continuous : ContinuousAt (fun b => (rounding b : ℝ)) a) : Rests rounding a := by
  have whole : ContinuousAt rounding a :=
    Int.isClosedEmbedding_coe_real.isInducing.continuousAt_iff.mpr continuous
  have alone : ∀ᶠ n in 𝓝 (rounding a), n = rounding a := by
    rw [nhds_discrete]
    exact eventually_pure.mpr rfl
  exact whole.eventually alone

theorem rests_const (n : ℤ) (a : ℝ) : Rests (fun _ => n) a := .of_forall fun _ => rfl

theorem Rests.congr {rounding other : ℝ → ℤ} {a : ℝ} (rests : Rests other a)
    (same : ∀ᶠ b in 𝓝 a, rounding b = other b) : Rests rounding a := by
  filter_upwards [rests, same] with b still equal
  rw [equal, still, same.self_of_nhds]

theorem eventually_abs_lt {a bound : ℝ} (zero : a = 0) (positive : 0 < bound) :
    ∀ᶠ b in 𝓝 a, |b| < bound := by
  have small : |a| < bound := by rwa [zero, abs_zero]
  exact continuous_abs.continuousAt.eventually (gt_mem_nhds small)

theorem frequently_abs_lt {a : ℝ} (nonzero : a ≠ 0) : ∃ᶠ b in 𝓝 a, |b| < |a| := by
  rcases lt_or_gt_of_ne nonzero with negative | positive
  · apply ((frequently_gt_nhds a).and_eventually (gt_mem_nhds negative)).mono
    intro b between
    rw [abs_of_neg between.2, abs_of_neg negative]
    exact neg_lt_neg between.1
  · apply ((frequently_lt_nhds a).and_eventually (lt_mem_nhds positive)).mono
    intro b between
    rw [abs_of_pos between.2, abs_of_pos positive]
    exact between.1

variable {a : ℝ}

theorem rests_floor_iff : Rests Int.floor a ↔ ∀ n : ℤ, a ≠ n := by
  constructor
  · intro rests n whole
    obtain ⟨b, below, same⟩ := ((frequently_lt_nhds a).and_eventually rests).exists
    rw [whole, Int.floor_intCast] at same
    rw [whole, ← same] at below
    exact absurd (Int.floor_le b) (not_le.mpr below)
  · intro apart
    have above : (⌊a⌋ : ℝ) < a := lt_of_le_of_ne (Int.floor_le a) (apart ⌊a⌋).symm
    filter_upwards [lt_mem_nhds above, gt_mem_nhds (Int.lt_floor_add_one a)] with b lower upper
    exact Int.floor_eq_iff.mpr ⟨lower.le, upper⟩

theorem rests_ceil_iff : Rests Int.ceil a ↔ ∀ n : ℤ, a ≠ n := by
  constructor
  · intro rests n whole
    obtain ⟨b, above, same⟩ := ((frequently_gt_nhds a).and_eventually rests).exists
    rw [whole, Int.ceil_intCast] at same
    rw [whole, ← same] at above
    exact absurd (Int.le_ceil b) (not_le.mpr above)
  · intro apart
    have below : a < ⌈a⌉ := lt_of_le_of_ne (Int.le_ceil a) (apart ⌈a⌉)
    have lower : (⌈a⌉ : ℝ) - 1 < a := sub_lt_iff_lt_add.mpr (Int.ceil_lt_add_one a)
    filter_upwards [lt_mem_nhds lower, gt_mem_nhds below] with b above under
    exact Int.ceil_eq_iff.mpr ⟨above, under.le⟩

theorem rests_unitOfSign_iff : Rests unitOfSign a ↔ a ≠ 0 := by
  constructor
  · intro rests zero
    obtain ⟨b, below, same⟩ := ((frequently_lt_nhds a).and_eventually rests).exists
    rw [zero] at below same
    rw [unitOfSign, unitOfSign, if_neg (not_le.mpr below), if_pos le_rfl] at same
    exact absurd same (by decide)
  · intro nonzero
    rcases lt_or_gt_of_ne nonzero with negative | positive
    · apply (rests_const (-1) a).congr
      exact (gt_mem_nhds negative).mono fun b below => if_neg (not_le.mpr below)
    · apply (rests_const 1 a).congr
      exact (lt_mem_nhds positive).mono fun b above => if_pos (le_of_lt above)

theorem abs_wholePart_le (a : ℝ) : |(wholePart a : ℝ)| ≤ |a| := by
  unfold wholePart
  split
  · rename_i nonneg
    rw [abs_of_nonneg (Int.cast_nonneg (Int.floor_nonneg.mpr nonneg)), abs_of_nonneg nonneg]
    exact Int.floor_le a
  · rename_i negative
    have under : ⌈a⌉ ≤ 0 := Int.ceil_le.mpr (by simpa using (not_le.mp negative).le)
    rw [abs_of_nonpos (Int.cast_nonpos.mpr under), abs_of_neg (not_le.mp negative)]
    exact neg_le_neg (Int.le_ceil a)

theorem wholePart_intCast (n : ℤ) : wholePart n = n := by
  unfold wholePart
  split
  · exact Int.floor_intCast n
  · exact Int.ceil_intCast n

theorem eq_zero_of_abs_cast_lt_one {n : ℤ} (small : |(n : ℝ)| < 1) : n = 0 := by
  rw [← Int.cast_abs] at small
  exact Int.abs_lt_one_iff.mp (by exact_mod_cast small)

theorem rests_wholePart_iff : Rests wholePart a ↔ ∀ n : ℤ, n ≠ 0 → a ≠ n := by
  constructor
  · intro rests n nonzero whole
    have apart : a ≠ 0 := by rw [whole]; exact Int.cast_ne_zero.mpr nonzero
    obtain ⟨b, smaller, same⟩ := ((frequently_abs_lt apart).and_eventually rests).exists
    have bound := abs_wholePart_le b
    rw [same, whole, wholePart_intCast, ← whole] at bound
    exact absurd bound (not_le.mpr smaller)
  · intro apart
    have everywhere (nonzero : a ≠ 0) (n : ℤ) : a ≠ n := by
      intro whole
      apply apart n _ whole
      intro zero
      exact nonzero (by rw [whole, zero, Int.cast_zero])
    rcases lt_trichotomy a 0 with negative | zero | positive
    · apply (rests_ceil_iff.mpr (everywhere negative.ne)).congr
      exact (gt_mem_nhds negative).mono fun b below => if_neg (not_le.mpr below)
    · apply (rests_const 0 a).congr
      exact (eventually_abs_lt zero one_pos).mono fun b near =>
        eq_zero_of_abs_cast_lt_one ((abs_wholePart_le b).trans_lt near)
    · apply (rests_floor_iff.mpr (everywhere positive.ne')).congr
      exact (lt_mem_nhds positive).mono fun b above => if_pos (le_of_lt above)

theorem nearestWhole_eq (a : ℝ) :
    nearestWhole a = if 0 ≤ a then ⌊a + 1 / 2⌋ else ⌈a - 1 / 2⌉ := by
  rw [nearestWhole, round_eq, round_eq, ← Int.ceil_neg, neg_add', neg_neg]

theorem abs_nearestWhole_le (a : ℝ) : |(nearestWhole a : ℝ)| ≤ |a| + 1 / 2 := by
  rw [nearestWhole_eq]
  split
  · rename_i nonneg
    have above : 0 ≤ ⌊a + 1 / 2⌋ := Int.floor_nonneg.mpr (by linarith)
    rw [abs_of_nonneg (Int.cast_nonneg above), abs_of_nonneg nonneg]
    exact Int.floor_le _
  · rename_i negative
    have under : ⌈a - 1 / 2⌉ ≤ 0 := Int.ceil_le.mpr (by rw [Int.cast_zero]; linarith)
    rw [abs_of_nonpos (Int.cast_nonpos.mpr under), abs_of_neg (not_le.mp negative)]
    linarith [Int.le_ceil (a - 1 / 2)]

theorem abs_nearestWhole_half (n : ℤ) :
    |(nearestWhole (n + 1 / 2) : ℝ)| = |(n : ℝ) + 1 / 2| + 1 / 2 := by
  rw [nearestWhole_eq]
  split
  · rename_i nonneg
    have upper : (n : ℝ) + 1 / 2 + 1 / 2 = ((n + 1 : ℤ) : ℝ) := by
      push_cast
      ring
    rw [upper, Int.floor_intCast, abs_of_nonneg nonneg, ← upper]
    exact abs_of_nonneg (by linarith)
  · rename_i negative
    have lower : (n : ℝ) + 1 / 2 - 1 / 2 = n := by ring
    rw [lower, Int.ceil_intCast, abs_of_neg (not_le.mp negative),
      abs_of_nonpos (by linarith [not_le.mp negative])]
    ring

theorem rests_nearestWhole_iff :
    Rests nearestWhole a ↔ ∀ n : ℤ, a + a ≠ ((2 * n + 1 : ℤ) : ℝ) := by
  constructor
  · intro rests n odd
    have half : a = n + 1 / 2 := by
      push_cast at odd
      linarith
    have nonzero : a ≠ 0 := by
      intro zero
      rw [zero, add_zero] at odd
      have even : 2 * n + 1 = 0 := by exact_mod_cast odd.symm
      omega
    obtain ⟨b, smaller, same⟩ := ((frequently_abs_lt nonzero).and_eventually rests).exists
    have bound := abs_nearestWhole_le b
    rw [same, half, abs_nearestWhole_half, ← half] at bound
    linarith
  · intro odd
    have apart (n : ℤ) : a ≠ n + 1 / 2 := by
      intro half
      apply odd n
      push_cast
      linarith
    rcases lt_trichotomy a 0 with negative | zero | positive
    · have rests : Rests Int.ceil (a - 1 / 2) :=
        rests_ceil_iff.mpr fun n whole => apart n (by linarith)
      have shifted : ContinuousAt (fun b : ℝ => b - 1 / 2) a := by fun_prop
      apply Rests.congr (shifted.eventually rests)
      filter_upwards [gt_mem_nhds negative] with b below
      rw [nearestWhole_eq, if_neg (not_le.mpr below)]
    · apply (rests_const 0 a).congr
      exact (eventually_abs_lt zero one_half_pos).mono fun b near =>
        eq_zero_of_abs_cast_lt_one ((abs_nearestWhole_le b).trans_lt (by linarith))
    · have rests : Rests Int.floor (a + 1 / 2) := by
        apply rests_floor_iff.mpr
        intro n whole
        apply apart (n - 1)
        push_cast
        linarith
      have shifted : ContinuousAt (fun b : ℝ => b + 1 / 2) a := by fun_prop
      apply Rests.congr (shifted.eventually rests)
      filter_upwards [lt_mem_nhds positive] with b above
      rw [nearestWhole_eq, if_pos above.le]

end Tangency
