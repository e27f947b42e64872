/-
The real meaning of the operators and functions of a formula.

Over the real numbers every operation has its usual domain: a power needs a positive
base, or a base zero with an exponent that is not negative, or a negative base with a
whole exponent.  Beside its value each function has a slope, and the points where it is
smooth are those inside of its domain and away from a corner.
-/

import Mathlib.Analysis.Calculus.Deriv.Abs
import Mathlib.Analysis.Calculus.Deriv.Inverse
import Mathlib.Analysis.SpecialFunctions.Pow.Deriv
import Mathlib.Analysis.SpecialFunctions.Sqrt
import Mathlib.Analysis.SpecialFunctions.Trigonometric.ArctanDeriv
import Mathlib.Analysis.SpecialFunctions.Trigonometric.DerivHyp
import Mathlib.Analysis.SpecialFunctions.Trigonometric.InverseDeriv
import Tangency.Proofs.Folding

namespace Tangency

open Filter Topology

open Classical in
/-- A value on the domain of an operation, and nothing outside of it. -/
noncomputable def Exact.onDomain (domain : Prop) (value : ℝ) : Exact ℝ :=
  if domain then known value else undefined

theorem Exact.onDomain_of_mem {domain : Prop} (holds : domain) (value : ℝ) :
    onDomain domain value = known value :=
  if_pos holds

theorem Exact.onDomain_eq_known {domain : Prop} {value result : ℝ}
    (defined : onDomain domain value = known result) : domain ∧ value = result := by
  unfold onDomain at defined
  split at defined
  · rename_i holds
    exact ⟨holds, known_injective defined⟩
  · cases defined

def PowerDomain (base exponent : ℝ) : Prop :=
  0 < base ∨ (base = 0 ∧ 0 ≤ exponent) ∨ (base < 0 ∧ ∃ whole : ℤ, exponent = whole)

noncomputable def realCubeRoot (a : ℝ) : ℝ :=
  if 0 ≤ a then a ^ (1 / 3 : ℝ) else -(-a) ^ (1 / 3 : ℝ)

noncomputable instance : ExactMeaning ℝ where
  logOfTen := Real.log 10
  isLess left right := decide (left < right)
  pow base exponent := Exact.onDomain (PowerDomain base exponent) (base ^ exponent)
  sin a := .known (Real.sin a)
  cos a := .known (Real.cos a)
  tan a := Exact.onDomain (Real.cos a ≠ 0) (Real.tan a)
  asin a := Exact.onDomain (-1 ≤ a ∧ a ≤ 1) (Real.arcsin a)
  acos a := Exact.onDomain (-1 ≤ a ∧ a ≤ 1) (Real.arccos a)
  atan a := .known (Real.arctan a)
  sinh a := .known (Real.sinh a)
  cosh a := .known (Real.cosh a)
  tanh a := .known (Real.tanh a)
  exp a := .known (Real.exp a)
  ln a := Exact.onDomain (0 < a) (Real.log a)
  log10 a := Exact.onDomain (0 < a) (Real.log a / Real.log 10)
  sqrt a := Exact.onDomain (0 ≤ a) (√a)
  cbrt a := .known (realCubeRoot a)
  abs a := .known |a|

theorem realCubeRoot_pow (a : ℝ) : realCubeRoot a ^ 3 = a := by
  have cube {b : ℝ} (nonneg : 0 ≤ b) : (b ^ (1 / 3 : ℝ)) ^ 3 = b := by
    rw [← Real.rpow_natCast, ← Real.rpow_mul nonneg]
    norm_num
  unfold realCubeRoot
  split
  · rename_i nonneg
    exact cube nonneg
  · rename_i negative
    rw [Odd.neg_pow (by decide), cube (by linarith), neg_neg]

theorem realCubeRoot_ne_zero {a : ℝ} (nonzero : a ≠ 0) : realCubeRoot a ≠ 0 := by
  intro vanishes
  have cube := realCubeRoot_pow a
  rw [vanishes] at cube
  apply nonzero
  rw [← cube]
  norm_num

theorem continuousAt_realCubeRoot {a : ℝ} (nonzero : a ≠ 0) : ContinuousAt realCubeRoot a := by
  rcases lt_or_gt_of_ne nonzero with negative | positive
  · have smooth : ContinuousAt (fun b : ℝ => -(-b) ^ (1 / 3 : ℝ)) a :=
      (continuousAt_neg.rpow_const (.inr (by norm_num))).neg
    apply smooth.congr
    filter_upwards [gt_mem_nhds negative] with b below
    exact (if_neg (not_le.mpr below)).symm
  · have smooth : ContinuousAt (fun b : ℝ => b ^ (1 / 3 : ℝ)) a :=
      continuousAt_id.rpow_const (.inr (by norm_num))
    apply smooth.congr
    filter_upwards [lt_mem_nhds positive] with b above
    exact (if_pos above.le).symm

theorem hasDerivAt_realCubeRoot {a : ℝ} (nonzero : a ≠ 0) :
    HasDerivAt realCubeRoot (1 / (3 * realCubeRoot a ^ 2)) a := by
  have cube : HasDerivAt (fun b : ℝ => b ^ 3) (3 * realCubeRoot a ^ 2) (realCubeRoot a) := by
    simpa using hasDerivAt_pow 3 (realCubeRoot a)
  have slope : 3 * realCubeRoot a ^ 2 ≠ 0 :=
    mul_ne_zero (by norm_num) (pow_ne_zero 2 (realCubeRoot_ne_zero nonzero))
  rw [one_div]
  exact cube.of_local_left_inverse (continuousAt_realCubeRoot nonzero) slope
    (.of_forall realCubeRoot_pow)

instance : LawfulPow ℝ where
  pow_zero base := by
    have everywhere : PowerDomain base 0 := by
      rcases lt_trichotomy base 0 with negative | zero | positive
      · exact .inr (.inr ⟨negative, 0, Int.cast_zero.symm⟩)
      · exact .inr (.inl ⟨zero, le_refl 0⟩)
      · exact .inl positive
    rw [← Real.rpow_zero base]
    exact Exact.onDomain_of_mem everywhere _
  pow_one base := by
    have everywhere : PowerDomain base 1 := by
      rcases lt_trichotomy base 0 with negative | zero | positive
      · exact .inr (.inr ⟨negative, 1, Int.cast_one.symm⟩)
      · exact .inr (.inl ⟨zero, zero_le_one⟩)
      · exact .inl positive
    nth_rewrite 2 [← Real.rpow_one base]
    exact Exact.onDomain_of_mem everywhere _

theorem pow_of_pos {base : ℝ} (positive : 0 < base) (exponent : ℝ) :
    ExactMeaning.pow base exponent = .known (base ^ exponent) :=
  Exact.onDomain_of_mem (.inl positive) _

theorem powerDomain_intCast {base : ℝ} {whole : ℤ} (allowed : base ≠ 0 ∨ 0 ≤ whole) :
    PowerDomain base whole := by
  rcases lt_trichotomy base 0 with negative | zero | positive
  · exact .inr (.inr ⟨negative, whole, rfl⟩)
  · refine .inr (.inl ⟨zero, ?_⟩)
    exact Int.cast_nonneg (allowed.resolve_left (not_not_intro zero))
  · exact .inl positive

theorem pow_intCast {base : ℝ} {whole : ℤ} (allowed : base ≠ 0 ∨ 0 ≤ whole) :
    ExactMeaning.pow base (whole : ℝ) = .known (base ^ (whole : ℝ)) :=
  Exact.onDomain_of_mem (powerDomain_intCast allowed) _

theorem eq_of_pow_known {base exponent value : ℝ}
    (defined : ExactMeaning.pow base exponent = .known value) : value = base ^ exponent :=
  (Exact.onDomain_eq_known defined).2.symm

/-! ### Functions of one argument -/

theorem Exact.isLess_known (left right : ℝ) :
    Scalar.isLess (known left) (known right) = decide (left < right) := rfl

theorem sign_known (a : ℝ) :
    Scalar.sign (Exact.known a) = .known ((SignType.sign a : SignType) : ℝ) := by
  unfold Scalar.sign
  rw [Exact.zero_eq, Exact.one_eq, Exact.isLess_known, Exact.isLess_known]
  rcases lt_trichotomy a 0 with negative | zero | positive
  · simp [negative, negative.le]
  · simp [zero]
  · simp [positive]

theorem one_sub_sq_pos {a : ℝ} (inside : -1 < a ∧ a < 1) : 0 < 1 - a ^ 2 := by
  nlinarith [inside.1, inside.2]

theorem hasDerivAt_tanh (a : ℝ) : HasDerivAt Real.tanh (1 / Real.cosh a ^ 2) a := by
  have quotient := (Real.hasDerivAt_sinh a).div (Real.hasDerivAt_cosh a) (Real.cosh_pos a).ne'
  have slope : Real.cosh a * Real.cosh a - Real.sinh a * Real.sinh a = 1 := by
    rw [← sq, ← sq, Real.cosh_sq_sub_sinh_sq]
  rw [slope] at quotient
  apply quotient.congr_of_eventuallyEq
  exact .of_forall Real.tanh_eq_sinh_div_cosh

theorem Exact.ln_div_ln {argument base : ℝ} (argumentPositive : 0 < argument)
    (basePositive : 0 < base) (baseNotOne : base ≠ 1) :
    Scalar.ln (known argument) / Scalar.ln (known base) =
      known (Real.log argument / Real.log base) := by
  have upper : Scalar.ln (known argument) = known (Real.log argument) :=
    onDomain_of_mem argumentPositive _
  have lower : Scalar.ln (known base) = known (Real.log base) := onDomain_of_mem basePositive _
  rw [upper, lower]
  exact known_div_of_ne_zero _ (Real.log_ne_zero_of_pos_of_ne_one basePositive baseNotOne)

namespace Elementary

noncomputable def realValue (function : Elementary) (a : ℝ) : ℝ :=
  match function with
  | sin => Real.sin a
  | cos => Real.cos a
  | tan => Real.tan a
  | asin => Real.arcsin a
  | acos => Real.arccos a
  | atan => Real.arctan a
  | sinh => Real.sinh a
  | cosh => Real.cosh a
  | tanh => Real.tanh a
  | exp => Real.exp a
  | ln | log => Real.log a
  | log10 => Real.log a / Real.log 10
  | sqrt => √a
  | cbrt => realCubeRoot a
  | abs => |a|
  | sign => (SignType.sign a : ℝ)

noncomputable def realSlope (function : Elementary) (a : ℝ) : ℝ :=
  match function with
  | sin => Real.cos a
  | cos => -Real.sin a
  | tan => 1 / Real.cos a ^ 2
  | asin => 1 / √(1 - a ^ 2)
  | acos => -(1 / √(1 - a ^ 2))
  | atan => 1 / (1 + a ^ 2)
  | sinh => Real.cosh a
  | cosh => Real.sinh a
  | tanh => 1 / Real.cosh a ^ 2
  | exp => Real.exp a
  | ln | log => 1 / a
  | log10 => 1 / (a * Real.log 10)
  | sqrt => 1 / (2 * √a)
  | cbrt => 1 / (3 * realCubeRoot a ^ 2)
  | abs => (SignType.sign a : ℝ)
  | sign => 0

/-- The argument lies inside of the domain and, for the cube root and the absolute value, away from
the point without a slope. -/
def InsideAt (function : Elementary) (a : ℝ) : Prop :=
  match function with
  | ln | log | log10 | sqrt => 0 < a
  | asin | acos => -1 < a ∧ a < 1
  | tan => Real.cos a ≠ 0
  | cbrt | abs => a ≠ 0
  | _ => True

def SmoothAt (function : Elementary) (a : ℝ) : Prop :=
  function.InsideAt a ∧ (function = sign → a ≠ 0)

/-- What a function asks of its arguments, given what it asks of one argument. A logarithm to a base
has positive arguments and a base other than one. -/
def Allows (allowed : Elementary → ℝ → Prop) (function : Elementary) (arguments : List ℝ) : Prop :=
  match function, arguments with
  | log, [argument, base] => 0 < argument ∧ 0 < base ∧ base ≠ 1
  | function, [argument] => allowed function argument
  | _, _ => True

theorem allows_singleton_iff {allowed : Elementary → ℝ → Prop} {function : Elementary} {a : ℝ} :
    Allows allowed function [a] ↔ allowed function a := by
  cases function <;> exact Iff.rfl

theorem applyOne_known {function : Elementary} {a : ℝ} (inside : function.InsideAt a) :
    function.applyOne (Exact.known a) = .known (function.realValue a) := by
  cases function with
  | tan => exact Exact.onDomain_of_mem inside _
  | asin | acos => exact Exact.onDomain_of_mem ⟨inside.1.le, inside.2.le⟩ _
  | ln | log | log10 => exact Exact.onDomain_of_mem inside _
  | sqrt => exact Exact.onDomain_of_mem (le_of_lt inside) _
  | sign => exact sign_known a
  | _ => rfl

theorem hasDerivAt_realValue {function : Elementary} {a : ℝ} (smooth : function.SmoothAt a) :
    HasDerivAt function.realValue (function.realSlope a) a := by
  have inside := smooth.1
  cases function with
  | sin => exact Real.hasDerivAt_sin a
  | cos => exact Real.hasDerivAt_cos a
  | tan => exact Real.hasDerivAt_tan inside
  | asin => exact Real.hasDerivAt_arcsin inside.1.ne' inside.2.ne
  | acos => exact Real.hasDerivAt_arccos inside.1.ne' inside.2.ne
  | atan => exact Real.hasDerivAt_arctan a
  | sinh => exact Real.hasDerivAt_sinh a
  | cosh => exact Real.hasDerivAt_cosh a
  | tanh => exact hasDerivAt_tanh a
  | exp => exact Real.hasDerivAt_exp a
  | ln | log =>
    change HasDerivAt Real.log (1 / a) a
    rw [one_div]
    exact Real.hasDerivAt_log (ne_of_gt inside)
  | log10 =>
    change HasDerivAt (fun b => Real.log b / Real.log 10) (1 / (a * Real.log 10)) a
    rw [one_div, mul_inv, ← div_eq_mul_inv]
    exact (Real.hasDerivAt_log (ne_of_gt inside)).div_const _
  | sqrt => exact Real.hasDerivAt_sqrt (ne_of_gt inside)
  | cbrt => exact hasDerivAt_realCubeRoot inside
  | abs => exact hasDerivAt_abs inside
  | sign =>
    rcases lt_or_gt_of_ne (smooth.2 rfl) with negative | positive
    · apply (hasDerivAt_const a (-1 : ℝ)).congr_of_eventuallyEq
      filter_upwards [gt_mem_nhds negative] with b below
      rw [realValue, sign_neg below, SignType.coe_neg_one]
    · apply (hasDerivAt_const a (1 : ℝ)).congr_of_eventuallyEq
      filter_upwards [lt_mem_nhds positive] with b above
      rw [realValue, sign_pos above, SignType.coe_one]

theorem eventually_smoothAt {function : Elementary} {a : ℝ} (smooth : function.SmoothAt a) :
    ∀ᶠ b in 𝓝 a, function.SmoothAt b := by
  have inside : ∀ᶠ b in 𝓝 a, function.InsideAt b := by
    have inside := smooth.1
    cases function with
    | ln | log | log10 | sqrt => exact lt_mem_nhds inside
    | asin | acos => exact (lt_mem_nhds inside.1).and (gt_mem_nhds inside.2)
    | tan => exact Real.continuous_cos.continuousAt.eventually_ne inside
    | cbrt | abs => exact eventually_ne_nhds inside
    | _ => exact .of_forall fun _ => trivial
  have apart : ∀ᶠ b in 𝓝 a, function = sign → b ≠ 0 := by
    by_cases isSign : function = sign
    · filter_upwards [eventually_ne_nhds (smooth.2 isSign)] with b nonzero _
      exact nonzero
    · exact .of_forall fun _ same => absurd same isSign
  exact inside.and apart

end Elementary

namespace Operator

noncomputable def realValue (operator : Operator) (a b : ℝ) : ℝ :=
  match operator with
  | add => a + b
  | sub => a - b
  | mul => a * b
  | div => a / b
  | pow => a ^ b

noncomputable def realSlope (operator : Operator) (a d b e : ℝ) : ℝ :=
  match operator with
  | add => d + e
  | sub => d - e
  | mul => d * b + a * e
  | div => (d * b - a * e) / b ^ 2
  | pow => b * a ^ (b - 1) * d + a ^ b * Real.log a * e

theorem eq_realValue {operator : Operator} {a b value : ℝ}
    (defined : operator.apply (Exact.known a) (Exact.known b) = .known value) :
    value = operator.realValue a b := by
  cases operator with
  | div => exact (Exact.eq_of_known_div defined).2
  | pow => exact eq_of_pow_known defined
  | _ => exact (Exact.known_injective defined).symm

theorem realSlope_zero (operator : Operator) (a b : ℝ) : operator.realSlope a 0 b 0 = 0 := by
  cases operator <;> simp [realSlope]

end Operator

noncomputable def logarithmSlopeToBase (a d b e : ℝ) : ℝ :=
  (d / a * Real.log b - Real.log a * (e / b)) / Real.log b ^ 2

theorem logarithmSlopeToBase_zero (a b : ℝ) : logarithmSlopeToBase a 0 b 0 = 0 := by
  simp only [logarithmSlopeToBase, zero_div, zero_mul, mul_zero, sub_zero]

end Tangency
