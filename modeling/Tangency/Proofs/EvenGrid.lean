/-
The grid of a sampling over exact numbers.

Settings that pass the check have a positive least half width, a scale that is not negative and a
step.  Their half width at an anchor is the greater of two numbers, so it is positive and the points
are one step of positive length apart.  The ends and the middle are hit exactly, and a point in the
reach of either width lies between two neighbours.

Counts are exact here as well.  A count in machine words is the same as long as the number of points
fits a word.
-/

import Tangency.Proofs.RealMeaning
import Tangency.Settings

namespace Tangency

universe u

/-- The comparison and the absolute value are those of the ordered field. -/
class LawfulOrder (K : Type u) [Field K] [LinearOrder K] [ExactMeaning K] : Prop where
  isLess_eq (a b : K) : ExactMeaning.isLess a b = decide (a < b)
  abs_eq (a : K) : ExactMeaning.abs a = .known |a|

instance : LawfulOrder ℝ where
  isLess_eq a b := by rw [ExactMeaning.isLess, instExactMeaningReal, decide_eq_decide]
  abs_eq _ := rfl

theorem exists_neighbours {K : Type u} [LinearOrder K] (row : ℕ → K) {y : K} {count : ℕ}
    (countPos : 0 < count) (low : row 0 ≤ y) (high : y ≤ row count) :
    ∃ i < count, row i ≤ y ∧ y ≤ row (i + 1) := by
  induction count with
  | zero => exact absurd countPos (Nat.lt_irrefl 0)
  | succ count ih =>
    by_cases inside : 0 < count ∧ y ≤ row count
    · obtain ⟨i, below, between⟩ := ih inside.1 inside.2
      exact ⟨i, Nat.lt_succ_of_lt below, between⟩
    · refine ⟨count, Nat.lt_succ_self count, ?_, high⟩
      rcases Nat.eq_zero_or_pos count with rfl | pos
      · exact low
      · exact (lt_of_not_ge fun within => inside ⟨pos, within⟩).le

section Row

variable {K : Type u} [Field K] (center reach : K) {steps : ℕ}

def evenRow (steps index : ℕ) : K := center + reach * (index / steps - 1)

theorem evenRow_zero : evenRow center reach steps 0 = center - reach := by
  rw [evenRow, Nat.cast_zero, zero_div]
  ring

variable [CharZero K] (stepsPos : 0 < steps)

include stepsPos

theorem evenRow_succ_sub (index : ℕ) :
    evenRow center reach steps (index + 1) - evenRow center reach steps index = reach / steps := by
  have nonzero : (steps : K) ≠ 0 := Nat.cast_ne_zero.mpr stepsPos.ne'
  rw [evenRow, evenRow, Nat.cast_succ]
  field_simp
  ring

theorem evenRow_middle : evenRow center reach steps steps = center := by
  have nonzero : (steps : K) ≠ 0 := Nat.cast_ne_zero.mpr stepsPos.ne'
  rw [evenRow, div_self nonzero, sub_self, mul_zero, add_zero]

theorem evenRow_add_evenRow {index : ℕ} (inside : index ≤ 2 * steps) :
    evenRow center reach steps index + evenRow center reach steps (2 * steps - index) =
      2 * center := by
  have nonzero : (steps : K) ≠ 0 := Nat.cast_ne_zero.mpr stepsPos.ne'
  rw [evenRow, evenRow, Nat.cast_sub inside, Nat.cast_mul]
  field_simp
  ring

theorem evenRow_last : evenRow center reach steps (2 * steps) = center + reach := by
  have opposite := evenRow_add_evenRow center reach stepsPos (Nat.zero_le (2 * steps))
  rw [evenRow_zero, Nat.sub_zero] at opposite
  linear_combination opposite

end Row

section OrderedRow

variable {K : Type u} [Field K] [LinearOrder K] [IsStrictOrderedRing K] (center : K) {reach : K}
  {steps : ℕ} (stepsPos : 0 < steps)

include stepsPos

theorem evenRow_strictMono (positive : 0 < reach) : StrictMono (evenRow center reach steps) := by
  apply strictMono_nat_of_lt_succ
  intro index
  have gap := evenRow_succ_sub center reach stepsPos index
  have length : 0 < reach / steps := div_pos positive (Nat.cast_pos.mpr stepsPos)
  exact sub_pos.mp (gap ▸ length)

theorem exists_evenRow_neighbours {y : K} (close : |y - center| ≤ reach) :
    ∃ i < 2 * steps, evenRow center reach steps i ≤ y ∧ y ≤ evenRow center reach steps (i + 1) := by
  obtain ⟨low, high⟩ := abs_le.mp close
  apply exists_neighbours _ (Nat.mul_pos Nat.two_pos stepsPos)
  · rw [evenRow_zero]
    linarith
  · rw [evenRow_last center reach stepsPos]
    linarith

end OrderedRow

variable {K : Type u} [Field K] [LinearOrder K] [DecidableEq K] [ExactMeaning K]

section Comparison

variable [LawfulOrder K]

theorem isAtMost_known (a b : K) :
    Scalar.isAtMost (Exact.known a) (.known b) = decide (a ≤ b) := by
  have split : Scalar.isAtMost (Exact.known a) (.known b) =
      (ExactMeaning.isLess a b || decide (a = b)) := rfl
  rw [split, LawfulOrder.isLess_eq, ← Bool.decide_or, decide_eq_decide, le_iff_lt_or_eq]

theorem larger_known (a b : K) :
    Scalar.larger (Exact.known a) (.known b) = .known (max a b) := by
  have defined : Scalar.isUndefined (Exact.known b) = false := by
    rw [Scalar.isUndefined, Exact.isEqual_known, decide_eq_true rfl, Bool.not_true]
  have less : Scalar.isLess (Exact.known b) (.known a) = decide (b < a) :=
    LawfulOrder.isLess_eq b a
  rw [Scalar.larger, defined, Bool.or_false, less]
  by_cases swapped : b < a
  · rw [decide_eq_true swapped, if_pos rfl, max_eq_left swapped.le]
  · rw [decide_eq_false swapped, if_neg Bool.false_ne_true, max_eq_right (not_lt.mp swapped)]

end Comparison

namespace GridSettings

variable {ν : Type} [Count ν]

structure Holds (settings : GridSettings (Exact K) ν) (least scale : K) : Prop where
  minHalfWidth_eq : settings.minHalfWidth = .known least
  widthScale_eq : settings.widthScale = .known scale
  least_pos : 0 < least
  scale_nonneg : 0 ≤ scale
  steps_pos : 0 < Count.toNat settings.stepsPerSide

/-- The grid is made of points that lie evenly and strictly increasing around the anchor, from one
end of its reach to the other, and every point within the least half width or within the scaled size
of the anchor has a neighbour to either side. -/
structure CoversEvenly (settings : GridSettings (Exact K) ν) (anchor reach : K) (row : ℕ → K) :
    Prop where
  halfWidth_eq : settings.halfWidth (.known anchor) = .known reach
  points_eq : settings.points (.known anchor) =
    (List.range (2 * Count.toNat settings.stepsPerSide + 1)).map fun i => .known (row i)
  gap (i : ℕ) : row (i + 1) - row i = reach / Count.toNat settings.stepsPerSide
  increasing : StrictMono row
  first : row 0 = anchor - reach
  middle : row (Count.toNat settings.stepsPerSide) = anchor
  last : row (2 * Count.toNat settings.stepsPerSide) = anchor + reach
  symmetric {i : ℕ} : i ≤ 2 * Count.toNat settings.stepsPerSide →
    row i + row (2 * Count.toNat settings.stepsPerSide - i) = 2 * anchor
  covers {least scale y : K} : settings.minHalfWidth = .known least →
    settings.widthScale = .known scale → |y - anchor| ≤ least ∨ |y - anchor| ≤ |anchor| * scale →
    ∃ i < 2 * Count.toNat settings.stepsPerSide, row i ≤ y ∧ y ≤ row (i + 1)

section Order

variable [LawfulOrder K] {settings : GridSettings (Exact K) ν}

/-! ### Settings that pass the check -/

theorem exists_holds (accepted : settings.fault? = none) :
    ∃ least scale, settings.Holds least scale := by
  obtain ⟨minHalfWidth, widthScale, steps⟩ := settings
  obtain ⟨⟨leastFinite, leastAllowed⟩, ⟨scaleFinite, scaleAllowed⟩, stepsAllowed⟩ :=
    fault?_eq_none_iff.mp accepted
  cases minHalfWidth with
  | undefined => cases leastFinite
  | known least =>
    cases widthScale with
    | undefined => cases scaleFinite
    | known scale =>
      rw [Exact.zero_eq, isAtMost_known] at leastAllowed
      have less : Scalar.isLess (Exact.known scale) (.known 0) = decide (scale < 0) :=
        LawfulOrder.isLess_eq scale 0
      rw [Exact.zero_eq, less] at scaleAllowed
      exact ⟨least, scale, rfl, rfl, not_le.mp (of_decide_eq_false leastAllowed),
        not_lt.mp (of_decide_eq_false scaleAllowed), Nat.pos_of_ne_zero stepsAllowed⟩

namespace Holds

variable {least scale : K} (holds : settings.Holds least scale) (anchor : K)

include holds

theorem halfWidth_known :
    settings.halfWidth (.known anchor) = .known (max least (|anchor| * scale)) := by
  have size : Scalar.abs (Exact.known anchor) = .known |anchor| := LawfulOrder.abs_eq anchor
  rw [halfWidth, holds.minHalfWidth_eq, holds.widthScale_eq, size, Exact.known_mul, larger_known]

variable [IsStrictOrderedRing K]

theorem point_known (index : ℕ) :
    settings.point (.known anchor) index =
      .known (anchor + max least (|anchor| * scale) *
        (index / Count.toNat settings.stepsPerSide - 1)) := by
  have steps : (Count.toNat settings.stepsPerSide : K) ≠ 0 :=
    Nat.cast_ne_zero.mpr holds.steps_pos.ne'
  have quotient : Scalar.natural index / Scalar.natural (Count.toNat settings.stepsPerSide) =
      Exact.known ((index : K) / Count.toNat settings.stepsPerSide) :=
    Exact.known_div_of_ne_zero _ steps
  rw [point, holds.halfWidth_known, quotient, Exact.one_eq, Exact.known_sub, Exact.known_mul,
    Exact.known_add]

theorem coversEvenly
    (counted : Count.toNat settings.pointCount = 2 * Count.toNat settings.stepsPerSide + 1) :
    settings.CoversEvenly anchor (max least (|anchor| * scale))
      (evenRow anchor (max least (|anchor| * scale)) (Count.toNat settings.stepsPerSide)) where
  halfWidth_eq := holds.halfWidth_known anchor
  points_eq := by
    rw [points, counted]
    exact List.map_congr_left fun index _ => holds.point_known anchor index
  gap := evenRow_succ_sub anchor _ holds.steps_pos
  increasing := evenRow_strictMono anchor holds.steps_pos (lt_max_of_lt_left holds.least_pos)
  first := evenRow_zero anchor _
  middle := evenRow_middle anchor _ holds.steps_pos
  last := evenRow_last anchor _ holds.steps_pos
  symmetric := evenRow_add_evenRow anchor _ holds.steps_pos
  covers {other otherScale y} leastEq scaleEq close := by
    have sameLeast := Exact.known_injective (leastEq.symm.trans holds.minHalfWidth_eq)
    have sameScale := Exact.known_injective (scaleEq.symm.trans holds.widthScale_eq)
    subst sameLeast sameScale
    exact exists_evenRow_neighbours anchor holds.steps_pos (le_max_iff.mpr close)

end Holds

end Order

end GridSettings

variable [LawfulOrder K] [IsStrictOrderedRing K]

/-- A grid over exact numbers covers the surroundings of its anchor evenly, in both counts: the one
without a bound, and words, as long as the number of points fits one. -/
theorem grid_coversEvenly (anchor : K) :
    (∀ settings : GridSettings (Exact K) ℕ, settings.fault? = none →
      ∃ reach row, settings.CoversEvenly anchor reach row) ∧
    ∀ settings : GridSettings (Exact K), settings.fault? = none →
      2 * settings.stepsPerSide.toNat + 1 < 2 ^ 64 →
      ∃ reach row, settings.CoversEvenly anchor reach row := by
  constructor
  · intro settings accepted
    obtain ⟨least, scale, holds⟩ := GridSettings.exists_holds accepted
    exact ⟨_, _, holds.coversEvenly anchor rfl⟩
  · intro settings accepted fits
    obtain ⟨least, scale, holds⟩ := GridSettings.exists_holds accepted
    exact ⟨_, _, holds.coversEvenly anchor (GridSettings.toNat_pointCount fits)⟩

/-- Two steps to a side, as wide as the anchor is far from zero. -/
noncomputable def twoSteps (ν : Type) [Count ν] : GridSettings (Exact ℝ) ν :=
  ⟨.known 1, .known 1, Count.ofNat 2⟩

theorem fault?_twoSteps {ν : Type} [Count ν] (two : Count.toNat (Count.ofNat 2 : ν) = 2) :
    (twoSteps ν).fault? = none := by
  have least : Scalar.isAtMost (Exact.known (1 : ℝ)) (.known 0) = false := by
    rw [isAtMost_known, decide_eq_false (not_le.mpr one_pos)]
  have scale : Scalar.isLess (Exact.known (1 : ℝ)) (.known 0) = false := by
    rw [Exact.isLess_known, decide_eq_false (not_lt.mpr zero_le_one)]
  have finite (a : ℝ) : Scalar.isFinite (Exact.known a) = true := rfl
  simp [twoSteps, GridSettings.fault?, Exact.zero_eq, least, scale, finite, two]

theorem grid_coversEvenly_twoSteps :
    (twoSteps ℕ).fault? = none ∧ (twoSteps UInt64).fault? = none ∧
      2 * (twoSteps UInt64).stepsPerSide.toNat + 1 < 2 ^ 64 ∧
      (∃ reach row, (twoSteps ℕ).CoversEvenly (-10) reach row) ∧
      ∃ reach row, (twoSteps UInt64).CoversEvenly (-10) reach row := by
  have acceptedCount : (twoSteps ℕ).fault? = none := fault?_twoSteps rfl
  have acceptedWords : (twoSteps UInt64).fault? = none := fault?_twoSteps rfl
  have fits : 2 * (twoSteps UInt64).stepsPerSide.toNat + 1 < 2 ^ 64 := by
    change 2 * 2 + 1 < 2 ^ 64
    norm_num
  have covers := grid_coversEvenly (-10 : ℝ)
  exact ⟨acceptedCount, acceptedWords, fits, covers.1 _ acceptedCount,
    covers.2 _ acceptedWords fits⟩

end Tangency
