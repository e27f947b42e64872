/-
What the labels of a shape tell about the signs of slope and curvature.

A size below the tolerance is flat, and what is neither flat nor positive is taken for negative.  A
zero is below every tolerance but zero, which the check accepts: then it is taken for negative, also
when its sign is turned around.  All other labels are those of the signs, and turn around with them.
A wider tolerance makes labels flat and changes no other.
-/

import Tangency.Behavior
import Tangency.Proofs.DoubleOrder
import Tangency.Settings

namespace Tangency

universe u

/-- The side of zero that a number is taken to lie on, or neither. -/
def leaning {α : Type u} [Scalar α] (tolerance x : α) : SignType :=
  if Scalar.isLess (Scalar.abs x) tolerance then .zero
  else if Scalar.isLess Scalar.zero x then .pos
  else .neg

namespace Binary64

variable {tolerance x : Binary64} (toleranceFinite : tolerance.isFinite = true)
  (finite : x.isFinite = true)

include toleranceFinite finite

theorem leaning_eq :
    leaning tolerance x =
      if |x.rational| < tolerance.rational then .zero
      else if 0 < x.rational then .pos else .neg := by
  have flat := isLess_iff ((isFinite_abs x).trans finite) toleranceFinite
  have above := isLess_iff (x := Scalar.zero) (by decide) finite
  rw [rational_abs] at flat
  rw [scalar_zero_eq, rational_zero, ← scalar_zero_eq] at above
  exact if_congr flat rfl (if_congr above rfl rfl)

theorem leaning_eq_pos_iff :
    leaning tolerance x = .pos ↔ tolerance.rational ≤ |x.rational| ∧ 0 < x.rational := by
  rw [leaning_eq toleranceFinite finite]
  split_ifs with flat above
  · exact iff_of_false nofun fun lies => flat.not_ge lies.1
  · exact iff_of_true rfl ⟨not_lt.mp flat, above⟩
  · exact iff_of_false nofun fun lies => above lies.2

theorem leaning_eq_neg_iff :
    leaning tolerance x = .neg ↔ tolerance.rational ≤ |x.rational| ∧ x.rational ≤ 0 := by
  rw [leaning_eq toleranceFinite finite]
  split_ifs with flat above
  · exact iff_of_false nofun fun lies => flat.not_ge lies.1
  · exact iff_of_false nofun fun lies => above.not_ge lies.2
  · exact iff_of_true rfl ⟨not_lt.mp flat, not_lt.mp above⟩

theorem rational_of_leaning_neg (nonneg : 0 ≤ tolerance.rational)
    (leans : leaning tolerance x = .neg) :
    x.rational < 0 ∨ x.rational = 0 ∧ tolerance.rational = 0 := by
  obtain ⟨outside, notAbove⟩ := (leaning_eq_neg_iff toleranceFinite finite).mp leans
  rcases notAbove.lt_or_eq with below | isZero
  · exact .inl below
  · rw [isZero, abs_zero] at outside
    exact .inr ⟨isZero, le_antisymm outside nonneg⟩

theorem leaning_neg (nonneg : 0 ≤ tolerance.rational)
    (distinct : ¬(x.rational = 0 ∧ tolerance.rational = 0)) :
    leaning tolerance (-x) = -leaning tolerance x := by
  have oppositeFinite := (isFinite_neg x).trans finite
  cases leans : leaning tolerance x with
  | zero =>
    rw [leaning_eq toleranceFinite finite] at leans
    rw [leaning_eq toleranceFinite oppositeFinite, rational_neg, abs_neg]
    split_ifs at leans with flat above
    rw [if_pos flat]
    rfl
  | pos =>
    obtain ⟨outside, above⟩ := (leaning_eq_pos_iff toleranceFinite finite).mp leans
    refine (leaning_eq_neg_iff toleranceFinite oppositeFinite).mpr ?_
    rw [rational_neg, abs_neg]
    exact ⟨outside, neg_nonpos.mpr above.le⟩
  | neg =>
    have below := (rational_of_leaning_neg toleranceFinite finite nonneg leans).resolve_right
      distinct
    refine (leaning_eq_pos_iff toleranceFinite oppositeFinite).mpr ?_
    rw [rational_neg, abs_neg]
    exact ⟨((leaning_eq_neg_iff toleranceFinite finite).mp leans).1, neg_pos.mpr below⟩

theorem leaning_eq_neg_of_zero (exact : tolerance.rational = 0) (isZero : x.rational = 0) :
    leaning tolerance x = .neg :=
  (leaning_eq_neg_iff toleranceFinite finite).mpr
    ⟨exact.trans_le (abs_nonneg _), isZero.le⟩

theorem leaning_of_wider {wider : Binary64} (widerFinite : wider.isFinite = true)
    (le : tolerance.rational ≤ wider.rational) :
    leaning wider x = leaning tolerance x ∨ leaning wider x = .zero := by
  rw [leaning_eq widerFinite finite, leaning_eq toleranceFinite finite]
  by_cases flat : |x.rational| < wider.rational
  · exact .inr (if_pos flat)
  · have outside : ¬|x.rational| < tolerance.rational := fun inside => flat (inside.trans_le le)
    rw [if_neg flat, if_neg outside]
    exact .inl rfl

end Binary64

/-! ### Labels -/

def Trend.ofSign : SignType → Trend
  | .pos => .increasing
  | .neg => .decreasing
  | .zero => .stationary

def Concavity.ofSign : SignType → Concavity
  | .pos => .up
  | .neg => .down
  | .zero => .inflection

def Behavior.opposite : Behavior → Behavior
  | ⟨trend, concavity⟩ =>
    { trend :=
        match trend with
        | .increasing => .decreasing
        | .decreasing => .increasing
        | .stationary => .stationary
      concavity :=
        match concavity with
        | .up => .down
        | .down => .up
        | .inflection => .inflection }

theorem Behavior.opposite_ofSign (slope curvature : SignType) :
    opposite ⟨.ofSign slope, .ofSign curvature⟩ = ⟨.ofSign (-slope), .ofSign (-curvature)⟩ := by
  cases slope <;> cases curvature <;> rfl

theorem Trend.ofSign_injective : Function.Injective ofSign := by decide

theorem Concavity.ofSign_injective : Function.Injective ofSign := by decide

theorem Behavior.classify_eq {α : Type u} [Scalar α] (tolerance slope curvature : α) :
    classify tolerance slope curvature =
      ⟨.ofSign (leaning tolerance slope), .ofSign (leaning tolerance curvature)⟩ := by
  rw [classify, Trend.ofSlope, Concavity.ofCurvature, leaning, leaning]
  congr 1
  · split_ifs <;> rfl
  · split_ifs <;> rfl

theorem Settings.flatTolerance_of_accepted {settings : Settings Binary64}
    (accepted : settings.fault? = none) :
    settings.flatTolerance.isFinite = true ∧ 0 ≤ settings.flatTolerance.rational := by
  unfold fault? at accepted
  split at accepted
  · cases accepted
  · split at accepted
    · cases accepted
    · rename_i allowed
      rw [Bool.or_eq_true, not_or, Bool.not_eq_true', Bool.not_eq_false,
        Bool.not_eq_true] at allowed
      exact ⟨allowed.1, Binary64.rational_nonneg_of_isLess allowed.1 allowed.2⟩

/-- A label is given only to what has its sign, and the labels of the function turned upside down
are the opposite ones. -/
structure Behavior.FollowsSigns (tolerance slope curvature : Binary64) : Prop where
  increasing : (classify tolerance slope curvature).trend = .increasing → 0 < slope.rational
  decreasing : (classify tolerance slope curvature).trend = .decreasing → slope.rational < 0
  up : (classify tolerance slope curvature).concavity = .up → 0 < curvature.rational
  down : (classify tolerance slope curvature).concavity = .down → curvature.rational < 0
  opposite :
    classify tolerance (-slope) (-curvature) = (classify tolerance slope curvature).opposite

section Accepted

variable {tolerance slope curvature : Binary64} (toleranceFinite : tolerance.isFinite = true)
  (slopeFinite : slope.isFinite = true) (curvatureFinite : curvature.isFinite = true)

include toleranceFinite

section Trend

include slopeFinite

theorem Behavior.increasing_sign
    (label : (classify tolerance slope curvature).trend = .increasing) : 0 < slope.rational := by
  rw [classify_eq] at label
  exact ((Binary64.leaning_eq_pos_iff toleranceFinite slopeFinite).mp
    (Trend.ofSign_injective label)).2

theorem Behavior.decreasing_sign (nonneg : 0 ≤ tolerance.rational)
    (label : (classify tolerance slope curvature).trend = .decreasing) :
    slope.rational < 0 ∨ slope.rational = 0 ∧ tolerance.rational = 0 := by
  rw [classify_eq] at label
  exact Binary64.rational_of_leaning_neg toleranceFinite slopeFinite nonneg
    (Trend.ofSign_injective label)

end Trend

section Concavity

include curvatureFinite

theorem Behavior.up_sign (label : (classify tolerance slope curvature).concavity = .up) :
    0 < curvature.rational := by
  rw [classify_eq] at label
  exact ((Binary64.leaning_eq_pos_iff toleranceFinite curvatureFinite).mp
    (Concavity.ofSign_injective label)).2

theorem Behavior.down_sign (nonneg : 0 ≤ tolerance.rational)
    (label : (classify tolerance slope curvature).concavity = .down) :
    curvature.rational < 0 ∨ curvature.rational = 0 ∧ tolerance.rational = 0 := by
  rw [classify_eq] at label
  exact Binary64.rational_of_leaning_neg toleranceFinite curvatureFinite nonneg
    (Concavity.ofSign_injective label)

end Concavity

include slopeFinite curvatureFinite

theorem Behavior.followsSigns_iff (nonneg : 0 ≤ tolerance.rational) :
    FollowsSigns tolerance slope curvature ↔
      (tolerance.rational = 0 → slope.rational ≠ 0 ∧ curvature.rational ≠ 0) := by
  constructor
  · intro follows exact
    refine ⟨fun isZero => ?_, fun isZero => ?_⟩
    · have leans := Binary64.leaning_eq_neg_of_zero toleranceFinite slopeFinite exact isZero
      refine (follows.decreasing ?_).ne isZero
      rw [classify_eq, leans]
      rfl
    · have leans := Binary64.leaning_eq_neg_of_zero toleranceFinite curvatureFinite exact isZero
      refine (follows.down ?_).ne isZero
      rw [classify_eq, leans]
      rfl
  · intro distinct
    have slopeDistinct : ¬(slope.rational = 0 ∧ tolerance.rational = 0) :=
      fun both => (distinct both.2).1 both.1
    have curvatureDistinct : ¬(curvature.rational = 0 ∧ tolerance.rational = 0) :=
      fun both => (distinct both.2).2 both.1
    constructor
    case increasing => exact increasing_sign toleranceFinite slopeFinite
    case decreasing =>
      exact fun label =>
        (decreasing_sign toleranceFinite slopeFinite nonneg label).resolve_right slopeDistinct
    case up => exact up_sign toleranceFinite curvatureFinite
    case down =>
      exact fun label =>
        (down_sign toleranceFinite curvatureFinite nonneg label).resolve_right curvatureDistinct
    case opposite =>
      rw [classify_eq, classify_eq, opposite_ofSign,
        Binary64.leaning_neg toleranceFinite slopeFinite nonneg slopeDistinct,
        Binary64.leaning_neg toleranceFinite curvatureFinite nonneg curvatureDistinct]

theorem Behavior.classify_of_wider {wider : Binary64} (widerFinite : wider.isFinite = true)
    (le : tolerance.rational ≤ wider.rational) :
    ((classify wider slope curvature).trend = (classify tolerance slope curvature).trend ∨
      (classify wider slope curvature).trend = .stationary) ∧
    ((classify wider slope curvature).concavity = (classify tolerance slope curvature).concavity ∨
      (classify wider slope curvature).concavity = .inflection) := by
  rw [classify_eq, classify_eq]
  exact ⟨(Binary64.leaning_of_wider toleranceFinite slopeFinite widerFinite le).imp
      (congrArg Trend.ofSign) (congrArg Trend.ofSign),
    (Binary64.leaning_of_wider toleranceFinite curvatureFinite widerFinite le).imp
      (congrArg Concavity.ofSign) (congrArg Concavity.ofSign)⟩

end Accepted

/-- Under an accepted tolerance a label of growth is that of the sign, and one of decline as well
but for a zero without a tolerance. So the labels follow the signs, and turn around with them,
exactly if the tolerance is positive or neither number is zero. Another accepted tolerance that is
no smaller leaves each label as it is or makes it flat. -/
theorem labels_followSigns_iff {settings : Settings Binary64} (accepted : settings.fault? = none)
    {slope curvature : Binary64} (slopeFinite : slope.isFinite = true)
    (curvatureFinite : curvature.isFinite = true) :
    ((Behavior.classify settings.flatTolerance slope curvature).trend = .increasing →
      0 < slope.rational) ∧
    ((Behavior.classify settings.flatTolerance slope curvature).trend = .decreasing →
      slope.rational < 0 ∨ slope.rational = 0 ∧ settings.flatTolerance.rational = 0) ∧
    ((Behavior.classify settings.flatTolerance slope curvature).concavity = .up →
      0 < curvature.rational) ∧
    ((Behavior.classify settings.flatTolerance slope curvature).concavity = .down →
      curvature.rational < 0 ∨ curvature.rational = 0 ∧ settings.flatTolerance.rational = 0) ∧
    (Behavior.FollowsSigns settings.flatTolerance slope curvature ↔
      (settings.flatTolerance.rational = 0 → slope.rational ≠ 0 ∧ curvature.rational ≠ 0)) ∧
    ∀ wider : Settings Binary64, wider.fault? = none →
      settings.flatTolerance.rational ≤ wider.flatTolerance.rational →
      ((Behavior.classify wider.flatTolerance slope curvature).trend =
          (Behavior.classify settings.flatTolerance slope curvature).trend ∨
        (Behavior.classify wider.flatTolerance slope curvature).trend = .stationary) ∧
      ((Behavior.classify wider.flatTolerance slope curvature).concavity =
          (Behavior.classify settings.flatTolerance slope curvature).concavity ∨
        (Behavior.classify wider.flatTolerance slope curvature).concavity = .inflection) := by
  obtain ⟨toleranceFinite, nonneg⟩ := Settings.flatTolerance_of_accepted accepted
  refine ⟨Behavior.increasing_sign toleranceFinite slopeFinite,
    Behavior.decreasing_sign toleranceFinite slopeFinite nonneg,
    Behavior.up_sign toleranceFinite curvatureFinite,
    Behavior.down_sign toleranceFinite curvatureFinite nonneg,
    Behavior.followsSigns_iff toleranceFinite slopeFinite curvatureFinite nonneg, ?_⟩
  intro wider widerAccepted le
  exact Behavior.classify_of_wider toleranceFinite slopeFinite curvatureFinite
    (Settings.flatTolerance_of_accepted widerAccepted).1 le

/-- A slope and a curvature of exactly the size of the standard tolerance, and a tolerance of
one. -/
theorem labels_followSigns_atTolerance :
    (Settings.standard : Settings Binary64).fault? = none ∧
      Behavior.FollowsSigns Settings.standard.flatTolerance Settings.standard.flatTolerance
        (-Settings.standard.flatTolerance) ∧
      (Behavior.classify Binary64.one Settings.standard.flatTolerance
        (-Settings.standard.flatTolerance)).trend = .stationary := by
  have accepted : (Settings.standard : Settings Binary64).fault? = none := by decide +kernel
  have widerAccepted : ({ Settings.standard with flatTolerance := .one } :
      Settings Binary64).fault? = none := by decide +kernel
  have finite : (Settings.standard : Settings Binary64).flatTolerance.isFinite = true := by
    decide +kernel
  have positive : 0 < (Settings.standard : Settings Binary64).flatTolerance.rational := by
    decide +kernel
  have le : (Settings.standard : Settings Binary64).flatTolerance.rational ≤
      Binary64.one.rational := by
    decide +kernel
  have labels := labels_followSigns_iff accepted finite ((Binary64.isFinite_neg _).trans finite)
  refine ⟨accepted, labels.2.2.2.2.1.mpr fun exact => absurd exact positive.ne', ?_⟩
  exact (labels.2.2.2.2.2 _ widerAccepted le).1.resolve_left (by decide +kernel)

/-- Without a tolerance a slope of zero is reported as a decline, and so is its opposite. -/
theorem label_of_zero :
    ({ Settings.standard with flatTolerance := .zero } : Settings Binary64).fault? = none ∧
      Behavior.classify Binary64.zero .zero .one = ⟨.decreasing, .up⟩ ∧
      Behavior.classify Binary64.zero (-.zero) (-.one) = ⟨.decreasing, .down⟩ := by
  decide +kernel

end Tangency
