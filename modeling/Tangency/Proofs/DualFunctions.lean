/-
Functions of one dual number are first-order lifts.

A dual number follows a curve if it has the value and the slope of the curve at a time.
A lift returns the value of a real function, with the slope of the argument multiplied
by the derivative of the function, so it follows the function along the curve.  Every
function of one dual number is the lift of its real function wherever that is
differentiable in the interior of its domain.  For each function these points are given
exactly.  Of the roundings it is used that a whole number that depends on a point
continuously does not change around it.
-/

import Tangency.Proofs.DualMeaning
import Tangency.Proofs.RichMeaning

namespace Tangency

universe u

open Filter Topology

/-- The function is differentiable at a point of the interior of its domain. -/
structure SmoothInside {E : Type*} [NormedAddCommGroup E] [NormedSpace ℝ E] (domain : E → Prop)
    (f : E → ℝ) (point : E) : Prop where
  inside : ∀ᶠ q in 𝓝 point, domain q
  differentiable : DifferentiableAt ℝ f point

theorem SmoothInside.along {D E : Type*} [NormedAddCommGroup D] [NormedSpace ℝ D]
    [NormedAddCommGroup E] [NormedSpace ℝ E] {domain : E → Prop} {f : E → ℝ} {path : D → E}
    {time : D} (smooth : SmoothInside domain f (path time)) (moves : DifferentiableAt ℝ path time) :
    SmoothInside (fun s => domain (path s)) (fun s => f (path s)) time where
  inside := moves.continuousAt.eventually smooth.inside
  differentiable := smooth.differentiable.comp time moves

theorem lt_of_eventually_le {a b : ℝ} (around : ∀ᶠ c in 𝓝 a, b ≤ c) : b < a := by
  obtain ⟨c, below, above⟩ := ((frequently_lt_nhds a).and_eventually around).exists
  exact above.trans_lt below

theorem lt_of_eventually_ge {a b : ℝ} (around : ∀ᶠ c in 𝓝 a, c ≤ b) : a < b := by
  obtain ⟨c, above, below⟩ := ((frequently_gt_nhds a).and_eventually around).exists
  exact above.trans_le below

theorem hasDerivAt_of_rests {rounding : ℝ → ℤ} {a : ℝ} (rests : Rests rounding a) :
    HasDerivAt (fun b => (rounding b : ℝ)) 0 a := by
  apply (hasDerivAt_const a (rounding a : ℝ)).congr_of_eventuallyEq
  filter_upwards [rests] with b same
  rw [same]

theorem rests_iff_differentiableAt {rounding : ℝ → ℤ} {a : ℝ} :
    Rests rounding a ↔ DifferentiableAt ℝ (fun b => (rounding b : ℝ)) a :=
  ⟨fun rests => (hasDerivAt_of_rests rests).differentiableAt,
    fun differentiable => rests_of_continuousAt differentiable.continuousAt⟩

theorem hasDerivAt_artanh {a : ℝ} (inside : -1 < a ∧ a < 1) :
    HasDerivAt Real.artanh (1 / (1 - a ^ 2)) a := by
  have above : 0 < 1 + a := by linarith [inside.1]
  have below : 0 < 1 - a := by linarith [inside.2]
  have upper : HasDerivAt (fun b : ℝ => Real.log (1 + b)) (1 / (1 + a)) a :=
    ((hasDerivAt_id' a).const_add 1).log above.ne'
  have lower : HasDerivAt (fun b : ℝ => Real.log (1 - b)) (-1 / (1 - a)) a :=
    ((hasDerivAt_id' a).const_sub 1).log below.ne'
  have slope : 1 / 2 * (1 / (1 + a) - -1 / (1 - a)) = 1 / (1 - a ^ 2) := by
    have product : 1 - a ^ 2 = (1 + a) * (1 - a) := by ring
    rw [product]
    field_simp
    ring
  rw [← slope]
  apply ((upper.sub lower).const_mul (1 / 2)).congr_of_eventuallyEq
  filter_upwards [lt_mem_nhds inside.1, gt_mem_nhds inside.2] with b left right
  rw [Real.artanh_eq_half_log ⟨left.le, right.le⟩, Real.log_div (by linarith) (by linarith)]
  rfl

inductive DualFunction where
  | elementary (function : Elementary)
  | negation
  | reciprocal
  | floor
  | ceiling
  | round
  | truncate
  | fractional
  | signUnit
  | exp2
  | expLessOne
  | lnOneMore
  | log2
  | asinh
  | acosh
  | atanh

def Elementary.RealDomain (function : Elementary) (a : ℝ) : Prop :=
  match function with
  | ln | log | log10 => 0 < a
  | sqrt => 0 ≤ a
  | asin | acos => -1 ≤ a ∧ a ≤ 1
  | tan => Real.cos a ≠ 0
  | _ => True

namespace DualFunction

def apply {α : Type u} [RichScalar α] (function : DualFunction) (a : Dual α) : Dual α :=
  match function with
  | elementary function => function.applyOne a
  | negation => -a
  | reciprocal => a.reciprocal
  | floor => a.floor
  | ceiling => a.ceiling
  | round => a.round
  | truncate => a.truncate
  | fractional => a.fractional
  | signUnit => a.signUnit
  | exp2 => a.exp2
  | expLessOne => a.expLessOne
  | lnOneMore => a.lnOneMore
  | log2 => a.log2
  | asinh => a.asinh
  | acosh => a.acosh
  | atanh => a.atanh

def RealDomain (function : DualFunction) (a : ℝ) : Prop :=
  match function with
  | elementary function => function.RealDomain a
  | reciprocal => a ≠ 0
  | lnOneMore => -1 < a
  | log2 => 0 < a
  | acosh => 1 ≤ a
  | atanh => -1 < a ∧ a < 1
  | _ => True

noncomputable def realValue (function : DualFunction) (a : ℝ) : ℝ :=
  match function with
  | elementary function => function.realValue a
  | negation => -a
  | reciprocal => a⁻¹
  | floor => ⌊a⌋
  | ceiling => ⌈a⌉
  | round => nearestWhole a
  | truncate => wholePart a
  | fractional => a - wholePart a
  | signUnit => unitOfSign a
  | exp2 => ((2 : ℕ) : ℝ) ^ a
  | expLessOne => Real.exp a - 1
  | lnOneMore => Real.log (1 + a)
  | log2 => Real.log a / Real.log (2 : ℕ)
  | asinh => Real.arsinh a
  | acosh => Real.arcosh a
  | atanh => Real.artanh a

/-- The points of the interior of the domain at which the function is differentiable, one by one:
the edge of the domain, corners and jumps are left out. -/
def RegularAt (function : DualFunction) (a : ℝ) : Prop :=
  match function with
  | elementary function => function.SmoothAt a
  | reciprocal | signUnit => a ≠ 0
  | floor | ceiling => ∀ n : ℤ, a ≠ n
  | round => ∀ n : ℤ, a + a ≠ ((2 * n + 1 : ℤ) : ℝ)
  | truncate | fractional => ∀ n : ℤ, n ≠ 0 → a ≠ n
  | lnOneMore => -1 < a
  | log2 => 0 < a
  | acosh => 1 < a
  | atanh => -1 < a ∧ a < 1
  | _ => True

end DualFunction

namespace Dual

open Exact

/-- The function of dual numbers returns the value of the real function at the point, and multiplies
the slope by its derivative there. -/
def LiftsAt (lift : Dual (Exact ℝ) → Dual (Exact ℝ)) (f : ℝ → ℝ) (a : ℝ) : Prop :=
  ∃ slope, HasDerivAt f slope a ∧ ∀ d, lift (ofKnown a d) = ofKnown (f a) (slope * d)

/-- The dual number has the value and the slope of the curve at the time. -/
def Follows (a : Dual (Exact ℝ)) (curve : ℝ → ℝ) (time : ℝ) : Prop :=
  ∃ slope, HasDerivAt curve slope time ∧ a = ofKnown (curve time) slope

theorem Follows.lifted {lift : Dual (Exact ℝ) → Dual (Exact ℝ)} {outer : ℝ → ℝ}
    {a : Dual (Exact ℝ)} {curve : ℝ → ℝ} {time : ℝ} (first : Follows a curve time)
    (lifts : LiftsAt lift outer (curve time)) :
    Follows (lift a) (fun s => outer (curve s)) time := by
  obtain ⟨slope, moves, rfl⟩ := first
  obtain ⟨rate, derivative, result⟩ := lifts
  exact ⟨rate * slope, derivative.comp time moves, result slope⟩

theorem known_sq (a : ℝ) : known (a ^ 2) = known a * known a := by rw [sq, known_mul]

theorem known_reciprocal {b : ℝ} (nonzero : b ≠ 0) : Scalar.one / known b = known (1 / b) := by
  rw [one_eq]
  exact known_div_of_ne_zero _ nonzero

theorem known_reciprocal_sqrt {b : ℝ} (positive : 0 < b) :
    Scalar.one / Scalar.sqrt (known b) = known (1 / √b) := by
  have root : Scalar.sqrt (known b) = known √b := onDomain_of_mem positive.le _
  rw [root]
  exact known_reciprocal (Real.sqrt_pos.mpr positive).ne'

section Lifts

variable {lift : Dual (Exact ℝ) → Dual (Exact ℝ)} {f : ℝ → ℝ} {a slope : ℝ}

theorem liftsAt_of_chain {result derivative : Exact ℝ}
    (chains : ∀ d, lift (ofKnown a d) = (ofKnown a d).chain result derivative)
    (moves : HasDerivAt f slope a) (value : result = known (f a))
    (rate : derivative = known slope) : LiftsAt lift f a :=
  ⟨slope, moves, fun d => (chains d).trans (chain_ofKnown value rate)⟩

theorem liftsAt_of_rests {rounding : ℝ → ℤ} (rests : Rests rounding a)
    (result : ∀ d, lift (ofKnown a d) = constant (known (rounding a : ℝ))) :
    LiftsAt lift (fun b => rounding b) a := by
  refine ⟨0, hasDerivAt_of_rests rests, fun d => ?_⟩
  rw [result, constant, zero_eq, zero_mul]
  rfl

theorem liftsAt_negation (a : ℝ) : LiftsAt Neg.neg Neg.neg a := by
  refine ⟨-1, (hasDerivAt_id a).neg, fun d => ?_⟩
  rw [neg_ofKnown, neg_one_mul]

theorem liftsAt_reciprocal (nonzero : a ≠ 0) : LiftsAt reciprocal (fun b => b⁻¹) a := by
  refine ⟨-(a ^ 2)⁻¹, hasDerivAt_inv nonzero, fun d => ?_⟩
  have one : constant (Scalar.one : Exact ℝ) = ofKnown 1 0 := by
    rw [constant, one_eq, zero_eq]
    rfl
  have slope : (0 * a - 1 * d) / a ^ 2 = -(a ^ 2)⁻¹ * d := by ring
  rw [reciprocal, one, div_ofKnown nonzero, one_div, slope]

theorem liftsAt_fractional (rests : Rests wholePart a) :
    LiftsAt fractional (fun b => b - wholePart b) a := by
  refine ⟨1 - 0, (hasDerivAt_id a).sub (hasDerivAt_of_rests rests), fun d => ?_⟩
  rw [sub_zero, one_mul]
  rfl

theorem liftsAt_exp2 (a : ℝ) : LiftsAt exp2 (fun b => 2 ^ b) a := by
  have moves := (Real.hasStrictDerivAt_const_rpow two_pos a).hasDerivAt
  exact liftsAt_of_chain (fun _ => rfl) moves rfl rfl

theorem liftsAt_expLessOne (a : ℝ) : LiftsAt expLessOne (fun b => Real.exp b - 1) a := by
  have moves := (Real.hasDerivAt_exp a).sub_const 1
  exact liftsAt_of_chain (fun _ => rfl) moves rfl rfl

theorem liftsAt_lnOneMore (above : -1 < a) :
    LiftsAt lnOneMore (fun b => Real.log (1 + b)) a := by
  have positive : 0 < 1 + a := by linarith
  have moves := ((hasDerivAt_id' a).const_add 1).log positive.ne'
  have value : RichScalar.lnOneMore (known a) = known (Real.log (1 + a)) := onDomain_of_mem above _
  have rate := known_reciprocal positive.ne'
  rw [← known_add, ← one_eq] at rate
  exact liftsAt_of_chain (fun _ => rfl) moves value rate

theorem liftsAt_log2 (positive : 0 < a) :
    LiftsAt log2 (fun b => Real.log b / Real.log 2) a := by
  have nonzero : a * Real.log 2 ≠ 0 := mul_ne_zero positive.ne' (Real.log_pos one_lt_two).ne'
  have moves : HasDerivAt (fun b => Real.log b / Real.log 2) (1 / (a * Real.log 2)) a := by
    rw [← div_div, one_div]
    exact (Real.hasDerivAt_log positive.ne').div_const _
  have value : RichScalar.log2 (known a) = known (Real.log a / Real.log 2) :=
    onDomain_of_mem positive _
  exact liftsAt_of_chain (fun _ => rfl) moves value (known_reciprocal nonzero)

theorem liftsAt_asinh (a : ℝ) : LiftsAt asinh Real.arsinh a := by
  have positive : 0 < a ^ 2 + 1 := by positivity
  have moves : HasDerivAt Real.arsinh (1 / √(a ^ 2 + 1)) a := by
    rw [one_div, add_comm]
    exact Real.hasDerivAt_arsinh a
  have rate := known_reciprocal_sqrt positive
  rw [← known_add, known_sq, ← one_eq] at rate
  exact liftsAt_of_chain (fun _ => rfl) moves rfl rate

theorem liftsAt_acosh (above : 1 < a) : LiftsAt acosh Real.arcosh a := by
  have positive : 0 < a ^ 2 - 1 := by nlinarith
  have moves : HasDerivAt Real.arcosh (1 / √(a ^ 2 - 1)) a := by
    rw [one_div]
    exact Real.hasDerivAt_arcosh above
  have value : RichScalar.acosh (known a) = known (Real.arcosh a) := onDomain_of_mem above.le _
  have rate := known_reciprocal_sqrt positive
  rw [← known_sub, known_sq, ← one_eq] at rate
  exact liftsAt_of_chain (fun _ => rfl) moves value rate

theorem liftsAt_atanh (inside : -1 < a ∧ a < 1) : LiftsAt atanh Real.artanh a := by
  have value : RichScalar.atanh (known a) = known (Real.artanh a) := onDomain_of_mem inside _
  have rate := known_reciprocal (one_sub_sq_pos inside).ne'
  rw [← known_sub, known_sq, ← one_eq] at rate
  exact liftsAt_of_chain (fun _ => rfl) (hasDerivAt_artanh inside) value rate

end Lifts

end Dual

namespace DualFunction

variable {function : DualFunction} {a : ℝ}

theorem liftsAt (regular : function.RegularAt a) :
    Dual.LiftsAt function.apply function.realValue a := by
  cases function with
  | elementary function =>
    exact ⟨function.realSlope a, Elementary.hasDerivAt_realValue regular,
      fun d => Dual.applyOne_ofKnown function regular.1 d⟩
  | negation => exact Dual.liftsAt_negation a
  | reciprocal => exact Dual.liftsAt_reciprocal regular
  | floor => exact Dual.liftsAt_of_rests (rests_floor_iff.mpr regular) fun _ => rfl
  | ceiling => exact Dual.liftsAt_of_rests (rests_ceil_iff.mpr regular) fun _ => rfl
  | round => exact Dual.liftsAt_of_rests (rests_nearestWhole_iff.mpr regular) fun _ => rfl
  | truncate => exact Dual.liftsAt_of_rests (rests_wholePart_iff.mpr regular) fun _ => rfl
  | fractional => exact Dual.liftsAt_fractional (rests_wholePart_iff.mpr regular)
  | signUnit => exact Dual.liftsAt_of_rests (rests_unitOfSign_iff.mpr regular) fun _ => rfl
  | exp2 => exact Dual.liftsAt_exp2 a
  | expLessOne => exact Dual.liftsAt_expLessOne a
  | lnOneMore => exact Dual.liftsAt_lnOneMore regular
  | log2 => exact Dual.liftsAt_log2 regular
  | asinh => exact Dual.liftsAt_asinh a
  | acosh => exact Dual.liftsAt_acosh regular
  | atanh => exact Dual.liftsAt_atanh regular

end DualFunction

/-! ### Regular points are the smooth ones -/

theorem not_differentiableAt_realCubeRoot_zero : ¬DifferentiableAt ℝ realCubeRoot 0 := by
  intro differentiable
  have root : realCubeRoot 0 = 0 := pow_eq_zero_iff three_ne_zero |>.mp (realCubeRoot_pow 0)
  have cube := differentiable.hasDerivAt.pow 3
  have same : realCubeRoot ^ 3 = id := funext realCubeRoot_pow
  rw [same, root, zero_pow two_ne_zero, mul_zero, zero_mul] at cube
  exact zero_ne_one (cube.unique (hasDerivAt_id 0))

theorem ne_zero_of_differentiableAt_sign {a : ℝ}
    (differentiable : DifferentiableAt ℝ (fun b => (SignType.sign b : ℝ)) a) : a ≠ 0 := by
  have whole (b : ℝ) : ((SignType.sign b : ℤ) : ℝ) = (SignType.sign b : ℝ) :=
    SignType.intCast_cast _
  have rests : Rests (fun b => (SignType.sign b : ℤ)) a := by
    apply rests_of_continuousAt
    simp only [whole]
    exact differentiable.continuousAt
  intro zero
  obtain ⟨b, below, same⟩ := ((frequently_lt_nhds a).and_eventually rests).exists
  rw [zero] at below same
  change ((SignType.sign b : SignType) : ℤ) = ((SignType.sign (0 : ℝ) : SignType) : ℤ) at same
  rw [sign_neg below, sign_zero] at same
  exact absurd same (by decide)

namespace Elementary

variable {function : Elementary} {a : ℝ}

theorem realDomain_of_insideAt (inside : function.InsideAt a) : function.RealDomain a := by
  cases function with
  | asin | acos => exact ⟨inside.1.le, inside.2.le⟩
  | sqrt => exact le_of_lt inside
  | ln | log | log10 | tan => exact inside
  | _ => trivial

theorem smoothAt_of_smoothInside (smooth : SmoothInside function.RealDomain function.realValue a) :
    function.SmoothAt a := by
  have here := smooth.inside.self_of_nhds
  have differentiable := smooth.differentiable
  cases function with
  | ln | log | log10 | tan => exact ⟨here, by simp⟩
  | sqrt => exact ⟨lt_of_eventually_le smooth.inside, by simp⟩
  | asin | acos =>
    have left := lt_of_eventually_le (smooth.inside.mono fun _ => And.left)
    have right := lt_of_eventually_ge (smooth.inside.mono fun _ => And.right)
    exact ⟨⟨left, right⟩, by simp⟩
  | cbrt =>
    refine ⟨fun zero => ?_, by simp⟩
    subst zero
    exact not_differentiableAt_realCubeRoot_zero differentiable
  | abs =>
    refine ⟨fun zero => ?_, by simp⟩
    subst zero
    exact not_differentiableAt_abs_zero differentiable
  | sign => exact ⟨trivial, fun _ => ne_zero_of_differentiableAt_sign differentiable⟩
  | _ => exact ⟨trivial, by simp⟩

end Elementary

namespace DualFunction

variable {function : DualFunction} {a : ℝ}

theorem eventually_realDomain (regular : function.RegularAt a) :
    ∀ᶠ b in 𝓝 a, function.RealDomain b := by
  cases function with
  | elementary function =>
    apply (Elementary.eventually_smoothAt regular).mono
    exact fun b smooth => Elementary.realDomain_of_insideAt smooth.1
  | reciprocal => exact eventually_ne_nhds regular
  | lnOneMore | log2 => exact lt_mem_nhds regular
  | acosh => exact (lt_mem_nhds regular).mono fun _ => le_of_lt
  | atanh => exact (lt_mem_nhds regular.1).and (gt_mem_nhds regular.2)
  | _ => exact .of_forall fun _ => trivial

theorem regularAt_of_smoothInside
    (smooth : SmoothInside function.RealDomain function.realValue a) : function.RegularAt a := by
  have here := smooth.inside.self_of_nhds
  have differentiable := smooth.differentiable
  cases function with
  | elementary function => exact Elementary.smoothAt_of_smoothInside smooth
  | reciprocal | lnOneMore | log2 | atanh => exact here
  | floor => exact rests_floor_iff.mp (rests_iff_differentiableAt.mpr differentiable)
  | ceiling => exact rests_ceil_iff.mp (rests_iff_differentiableAt.mpr differentiable)
  | round => exact rests_nearestWhole_iff.mp (rests_iff_differentiableAt.mpr differentiable)
  | truncate => exact rests_wholePart_iff.mp (rests_iff_differentiableAt.mpr differentiable)
  | signUnit => exact rests_unitOfSign_iff.mp (rests_iff_differentiableAt.mpr differentiable)
  | fractional =>
    have whole : DifferentiableAt ℝ (fun b => b - (b - (wholePart b : ℝ))) a :=
      differentiableAt_id.sub differentiable
    simp only [sub_sub_cancel] at whole
    exact rests_wholePart_iff.mp (rests_iff_differentiableAt.mpr whole)
  | acosh => exact lt_of_eventually_le smooth.inside
  | _ => trivial

/-- The regular points of a function are those in the interior of its domain at which it is
differentiable. -/
theorem smoothInside_iff :
    SmoothInside function.RealDomain function.realValue a ↔ function.RegularAt a := by
  constructor
  · exact regularAt_of_smoothInside
  · intro regular
    obtain ⟨slope, derivative, -⟩ := liftsAt regular
    exact ⟨eventually_realDomain regular, derivative.differentiableAt⟩

end DualFunction

end Tangency
