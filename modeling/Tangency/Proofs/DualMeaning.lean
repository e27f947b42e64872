/-
Exact dual numbers carry slopes.

On dual numbers over exact real arithmetic each operation and function returns its
value together with its slope, in the sense of calculus, multiplied by the slope of the
argument.  The formulas differ from those of the symbolic rules, such as one plus the
square of the tangent instead of one by the square of the cosine, and the formula of a
power is chosen by the slope of the exponent at the point.
-/

import Tangency.Dual.Basic
import Tangency.Proofs.RealMeaning

namespace Tangency

open Exact

def Dual.ofKnown (value slope : ℝ) : Dual (Exact ℝ) := ⟨known value, known slope⟩

namespace Dual

theorem neg_ofKnown (a d : ℝ) : -ofKnown a d = ofKnown (-a) (-d) := rfl

theorem div_ofKnown {a d b e : ℝ} (nonzero : b ≠ 0) :
    ofKnown a d / ofKnown b e = ofKnown (a / b) ((d * b - a * e) / b ^ 2) := by
  have value : known a / known b = known (a / b) := known_div_of_ne_zero a nonzero
  have slope : known (d * b - a * e) / known (b * b) = known ((d * b - a * e) / (b * b)) :=
    known_div_of_ne_zero _ (mul_self_ne_zero.mpr nonzero)
  change Dual.mk (known a / known b) (known (d * b - a * e) / known (b * b)) = _
  rw [value, slope, ← sq]
  rfl

theorem pow_ofKnown_of_rest {a d b value : ℝ} (defined : ExactMeaning.pow a b = known value)
    (below : ExactMeaning.pow a (b - 1) = known (a ^ (b - 1))) :
    pow (ofKnown a d) (ofKnown b 0) = ofKnown value (b * a ^ (b - 1) * d) := by
  have powerValue : Scalar.pow (known a) (known b) = known value := defined
  have lower : Scalar.pow (known a) (known b - Scalar.one) = known (a ^ (b - 1)) := by
    rw [one_eq, known_sub]
    exact below
  have exponentRests : Scalar.isEqual (known (0 : ℝ)) Scalar.zero = true := by
    rw [zero_eq]
    exact decide_eq_true rfl
  unfold pow ofKnown
  rw [if_pos exponentRests, powerValue, lower, known_mul]
  by_cases baseRests : Scalar.isEqual (known d) Scalar.zero = true
  · rw [if_pos baseRests]
    rw [zero_eq] at baseRests ⊢
    have rest : d = 0 := of_decide_eq_true baseRests
    rw [rest, mul_zero]
  · rw [if_neg baseRests]
    rfl

/-- Over a positive base both formulas of a power have the slope of calculus. -/
theorem pow_ofKnown_of_pos {a d b e : ℝ} (positive : 0 < a) :
    pow (ofKnown a d) (ofKnown b e) =
      ofKnown (a ^ b) (b * a ^ (b - 1) * d + a ^ b * Real.log a * e) := by
  by_cases exponentRests : e = 0
  -- A moving exponent may still rest at this point, and then the run takes the other formula.
  · subst exponentRests
    rw [mul_zero, add_zero]
    exact pow_ofKnown_of_rest (pow_of_pos positive b) (pow_of_pos positive _)
  · have powerValue : Scalar.pow (known a) (known b) = known (a ^ b) := pow_of_pos positive b
    have logarithm : Scalar.ln (known a) = known (Real.log a) := onDomain_of_mem positive _
    have quotient : known (b * d) / known a = known (b * d / a) :=
      known_div_of_ne_zero _ positive.ne'
    have moves : ¬Scalar.isEqual (known e) Scalar.zero = true := by
      rw [zero_eq]
      exact fun same => exponentRests (of_decide_eq_true same)
    have total : a ^ b * (e * Real.log a + b * d / a) =
        b * a ^ (b - 1) * d + a ^ b * Real.log a * e := by
      rw [Real.rpow_sub_one positive.ne']
      ring
    unfold pow ofKnown
    rw [if_neg moves]
    simp only [powerValue, logarithm, known_mul, quotient, known_add, total]

theorem operation_ofKnown {operator : Operator} {a b value : ℝ}
    (defined : operator.apply (known a) (known b) = known value) (seed d e : ℝ)
    (admitted : operator = .pow →
      0 < a ∨ (e = 0 ∧ ExactMeaning.pow a (b - 1) = known (a ^ (b - 1)))) :
    operator.apply (ofKnown a (seed * d)) (ofKnown b (seed * e)) =
      ofKnown value (seed * operator.realSlope a d b e) := by
  have result := Operator.eq_realValue defined
  cases operator with
  | add =>
    rw [result, Operator.realValue, Operator.realSlope, mul_add]
    rfl
  | sub =>
    rw [result, Operator.realValue, Operator.realSlope, mul_sub]
    rfl
  | mul =>
    have slope : seed * (d * b + a * e) = a * (seed * e) + seed * d * b := by ring
    rw [result, Operator.realValue, Operator.realSlope, slope]
    rfl
  | div =>
    have slope : seed * ((d * b - a * e) / b ^ 2) = (seed * d * b - a * (seed * e)) / b ^ 2 := by
      ring
    rw [result, Operator.realValue, Operator.realSlope, slope]
    exact div_ofKnown (eq_of_known_div defined).1
  | pow =>
    rcases admitted rfl with positive | ⟨rest, below⟩
    · have slope : seed * (b * a ^ (b - 1) * d + a ^ b * Real.log a * e) =
          b * a ^ (b - 1) * (seed * d) + a ^ b * Real.log a * (seed * e) := by
        ring
      rw [result, Operator.realValue, Operator.realSlope, slope]
      exact pow_ofKnown_of_pos positive
    · have slope : seed * (b * a ^ (b - 1) * d + a ^ b * Real.log a * 0) =
          b * a ^ (b - 1) * (seed * d) := by
        ring
      rw [rest, Operator.realSlope, slope, mul_zero]
      exact pow_ofKnown_of_rest defined below

theorem chain_ofKnown {a d value slope : ℝ} {result derivative : Exact ℝ}
    (valueDefined : result = known value) (slopeDefined : derivative = known slope) :
    (ofKnown a d).chain result derivative = ofKnown value (slope * d) := by
  rw [valueDefined, slopeDefined]
  rfl

theorem one_add_tan_mul_self {a : ℝ} (nonzero : Real.cos a ≠ 0) :
    1 + Real.tan a * Real.tan a = 1 / Real.cos a ^ 2 := by
  rw [← sq, ← Real.inv_one_add_tan_sq nonzero, one_div, inv_inv]

theorem one_sub_tanh_mul_self (a : ℝ) :
    1 - Real.tanh a * Real.tanh a = 1 / Real.cosh a ^ 2 := by
  have nonzero : Real.cosh a ≠ 0 := (Real.cosh_pos a).ne'
  have circle := Real.cosh_sq_sub_sinh_sq a
  rw [Real.tanh_eq_sinh_div_cosh]
  field_simp
  linarith

theorem circleRoot_known {a : ℝ} (inside : -1 < a ∧ a < 1) :
    Scalar.sqrt (Scalar.one - known a * known a) = known √(1 - a ^ 2) := by
  rw [one_eq, known_mul, known_sub, ← sq]
  exact onDomain_of_mem (one_sub_sq_pos inside).le _

theorem abs_ofKnown {a : ℝ} (nonzero : a ≠ 0) (d : ℝ) :
    abs (ofKnown a d) = ofKnown |a| ((SignType.sign a : ℝ) * d) := by
  have atMost : Scalar.isAtMost Scalar.zero (known a) = decide (0 < a) := by
    rw [Scalar.isAtMost, zero_eq, isLess_known, isEqual_known, decide_eq_false nonzero.symm,
      Bool.or_false]
  unfold abs ofKnown
  rw [atMost]
  rcases lt_or_gt_of_ne nonzero with negative | positive
  · rw [if_neg (by simp [negative.le]), sign_neg negative, SignType.coe_neg_one, neg_one_mul]
    rfl
  · rw [if_pos (by simp [positive]), sign_pos positive, SignType.coe_one, one_mul]
    rfl

theorem sign_ofKnown (a d : ℝ) : Scalar.sign (ofKnown a d) = ofKnown (SignType.sign a : ℝ) 0 := by
  have zero : (Scalar.zero : Dual (Exact ℝ)) = ofKnown 0 0 := by
    change Dual.mk (Scalar.zero : Exact ℝ) Scalar.zero = _
    rw [zero_eq]
    rfl
  have one : (Scalar.one : Dual (Exact ℝ)) = ofKnown 1 0 := by
    change Dual.mk (Scalar.one : Exact ℝ) Scalar.zero = _
    rw [zero_eq, one_eq]
    rfl
  have less (b c e : ℝ) : Scalar.isLess (ofKnown b e) (ofKnown c 0) = decide (b < c) := rfl
  have less' (b c e : ℝ) : Scalar.isLess (ofKnown b 0) (ofKnown c e) = decide (b < c) := rfl
  unfold Scalar.sign
  rw [zero, one, less, less']
  rcases lt_trichotomy a 0 with negative | rest | positive
  · rw [if_neg (by simp [negative.le]), if_pos (by simp [negative]), sign_neg negative,
      SignType.coe_neg_one, neg_ofKnown, neg_zero]
  · subst rest
    rw [if_neg (by simp), if_neg (by simp), sign_zero, SignType.coe_zero]
    change ofKnown (0 * 0) (0 * 0 + d * 0) = _
    rw [mul_zero, mul_zero, add_zero]
  · rw [if_pos (by simp [positive]), sign_pos positive, SignType.coe_one]

theorem applyOne_ofKnown (function : Elementary) {a : ℝ} (inside : function.InsideAt a) (d : ℝ) :
    function.applyOne (ofKnown a d) =
      ofKnown (function.realValue a) (function.realSlope a * d) := by
  have value := Elementary.applyOne_known inside
  cases function with
  | sin | cos | sinh | cosh | exp => exact chain_ofKnown value rfl
  | tan =>
    have tangent : Scalar.tan (known a) = known (Real.tan a) := value
    apply chain_ofKnown value
    change Scalar.one + Scalar.tan (known a) * Scalar.tan (known a) = _
    rw [tangent, one_eq, known_mul, known_add, one_add_tan_mul_self inside]
    rfl
  | asin =>
    have nonzero : √(1 - a ^ 2) ≠ 0 := (Real.sqrt_pos.mpr (one_sub_sq_pos inside)).ne'
    apply chain_ofKnown value
    change Scalar.one / Scalar.sqrt (Scalar.one - known a * known a) = _
    rw [circleRoot_known inside, one_eq]
    exact known_div_of_ne_zero _ nonzero
  | acos =>
    have nonzero : √(1 - a ^ 2) ≠ 0 := (Real.sqrt_pos.mpr (one_sub_sq_pos inside)).ne'
    apply chain_ofKnown value
    change -Scalar.one / Scalar.sqrt (Scalar.one - known a * known a) = _
    rw [circleRoot_known inside, one_eq, neg_known, Elementary.realSlope, ← neg_div]
    exact known_div_of_ne_zero _ nonzero
  | atan =>
    apply chain_ofKnown value
    change Scalar.one / (Scalar.one + known a * known a) = _
    rw [one_eq, known_mul, known_add, ← sq]
    exact known_div_of_ne_zero _ (by positivity)
  | tanh =>
    have tangent : Scalar.tanh (known a) = known (Real.tanh a) := value
    apply chain_ofKnown value
    change Scalar.one - Scalar.tanh (known a) * Scalar.tanh (known a) = _
    rw [tangent, one_eq, known_mul, known_sub, one_sub_tanh_mul_self]
    rfl
  | ln | log =>
    apply chain_ofKnown value
    rw [one_eq]
    exact known_div_of_ne_zero _ (ne_of_gt inside)
  | log10 =>
    have nonzero : Real.log 10 ≠ 0 := (Real.log_pos (by norm_num)).ne'
    apply chain_ofKnown value
    rw [one_eq]
    exact known_div_of_ne_zero _ (mul_ne_zero (ne_of_gt inside) nonzero)
  | sqrt =>
    have root : Scalar.sqrt (known a) = known √a := value
    have half : (Scalar.half : Exact ℝ) = known (1 / 2) := by
      change Scalar.one / Scalar.two = _
      rw [one_eq, two_eq]
      exact known_div_of_ne_zero _ two_ne_zero
    apply chain_ofKnown value
    change Scalar.half / Scalar.sqrt (known a) = _
    rw [half, root, Elementary.realSlope, ← div_div]
    exact known_div_of_ne_zero _ (Real.sqrt_pos.mpr inside).ne'
  | cbrt =>
    have root : Scalar.cbrt (known a) = known (realCubeRoot a) := value
    have three : (Scalar.natural 3 : Exact ℝ) = known 3 := congrArg known Nat.cast_ofNat
    have nonzero : realCubeRoot a ≠ 0 := realCubeRoot_ne_zero inside
    apply chain_ofKnown value
    change Scalar.one / (Scalar.natural 3 * Scalar.cbrt (known a) * Scalar.cbrt (known a)) = _
    rw [three, root, one_eq, known_mul, known_mul, mul_assoc, ← sq]
    exact known_div_of_ne_zero _ (mul_ne_zero three_ne_zero (pow_ne_zero 2 nonzero))
  | abs => exact abs_ofKnown inside d
  | sign =>
    rw [Elementary.realSlope, zero_mul]
    exact sign_ofKnown a d

theorem ln_div_ln_ofKnown {a b : ℝ} (argument : 0 < a) (base : 0 < b) (notOne : b ≠ 1)
    (seed d e : ℝ) :
    Scalar.ln (ofKnown a (seed * d)) / Scalar.ln (ofKnown b (seed * e)) =
      ofKnown (Real.log a / Real.log b) (seed * logarithmSlopeToBase a d b e) := by
  have nonzero : Real.log b ≠ 0 := Real.log_ne_zero_of_pos_of_ne_one base notOne
  have upper : Scalar.ln (ofKnown a (seed * d)) = ofKnown (Real.log a) (1 / a * (seed * d)) :=
    applyOne_ofKnown .ln argument _
  have lower : Scalar.ln (ofKnown b (seed * e)) = ofKnown (Real.log b) (1 / b * (seed * e)) :=
    applyOne_ofKnown .ln base _
  have slope : seed * logarithmSlopeToBase a d b e =
      (1 / a * (seed * d) * Real.log b - Real.log a * (1 / b * (seed * e))) / Real.log b ^ 2 := by
    rw [logarithmSlopeToBase]
    ring
  rw [upper, lower, slope]
  exact div_ofKnown nonzero

end Dual

end Tangency
