/-
Operations on dual numbers are first-order lifts.

Operands that follow curves give a result that follows the value of the real operation
along them, wherever that is differentiable in the interior of its domain.  Along the
straight line through a point the slope is the sum of the partial derivatives, each
multiplied by the slope of its operand.
-/

import Mathlib.Analysis.Calculus.Deriv.Pi
import Mathlib.Analysis.SpecialFunctions.Complex.LogDeriv
import Mathlib.NumberTheory.Real.Irrational
import Tangency.Proofs.DualFunctions

namespace Tangency

universe u

open Filter Topology

inductive DualOperation : ℕ → Type where
  | unary (function : DualFunction) : DualOperation 1
  | binary (operator : Operator) : DualOperation 2
  | remainder : DualOperation 2
  | logarithm : DualOperation 2
  /-- The angle of the point with the first operand as its ordinate. -/
  | angle : DualOperation 2
  | max : DualOperation 2
  | min : DualOperation 2
  | excess : DualOperation 2
  | hypotenuse : DualOperation 2
  | multiplyAdd : DualOperation 3

namespace DualOperation

def apply {α : Type u} [RichScalar α] {count : ℕ} (operation : DualOperation count)
    (operands : Fin count → Dual α) : Dual α :=
  match operation, operands with
  | unary function, a => function.apply (a 0)
  | binary operator, a => operator.apply (a 0) (a 1)
  | remainder, a => (a 0).remainder (a 1)
  | logarithm, a => (a 0).logarithm (a 1)
  | angle, a => (a 0).angle (a 1)
  | max, a => (a 0).max (a 1)
  | min, a => (a 0).min (a 1)
  | excess, a => (a 0).excess (a 1)
  | hypotenuse, a => (a 0).hypotenuse (a 1)
  | multiplyAdd, a => (a 0).multiplyAdd (a 1) (a 2)

def RealDomain {count : ℕ} (operation : DualOperation count) (point : Fin count → ℝ) : Prop :=
  match operation, point with
  | unary function, p => function.RealDomain (p 0)
  | binary .div, p => p 1 ≠ 0
  | binary .pow, p => PowerDomain (p 0) (p 1)
  | remainder, p => p 1 ≠ 0
  | logarithm, p => 0 < p 0 ∧ 0 < p 1 ∧ p 1 ≠ 1
  | _, _ => True

noncomputable def realValue {count : ℕ} (operation : DualOperation count)
    (point : Fin count → ℝ) : ℝ :=
  match operation, point with
  | unary function, p => function.realValue (p 0)
  | binary operator, p => operator.realValue (p 0) (p 1)
  | remainder, p => p 0 - p 1 * wholePart (p 0 / p 1)
  | logarithm, p => Real.log (p 0) / Real.log (p 1)
  | angle, p => angleAt (p 0) (p 1)
  | max, p => Max.max (p 0) (p 1)
  | min, p => Min.min (p 0) (p 1)
  | excess, p => Max.max (p 0 - p 1) 0
  | hypotenuse, p => √(p 0 ^ 2 + p 1 ^ 2)
  | multiplyAdd, p => p 0 * p 1 + p 2

/-- The points of the interior of the domain at which the operation is differentiable, one by one.
A remainder jumps where the quotient is a whole number other than zero, and an angle at the negative
abscissas; a choice between two operands has a corner where they are equal. -/
def RegularAt {count : ℕ} (operation : DualOperation count) (point : Fin count → ℝ) : Prop :=
  match operation, point with
  | unary function, p => function.RegularAt (p 0)
  | binary .div, p => p 1 ≠ 0
  | binary .pow, p => 0 < p 0
  | remainder, p => p 1 ≠ 0 ∧ ∀ n : ℤ, n ≠ 0 → p 0 / p 1 ≠ n
  | logarithm, p => 0 < p 0 ∧ 0 < p 1 ∧ p 1 ≠ 1
  | angle, p => 0 < p 1 ∨ p 0 ≠ 0
  | max, p => p 0 ≠ p 1
  | min, p => p 0 ≠ p 1
  | excess, p => p 0 ≠ p 1
  | hypotenuse, p => p 0 ≠ 0 ∨ p 1 ≠ 0
  | _, _ => True

noncomputable def partialSlope {count : ℕ} (operation : DualOperation count)
    (point : Fin count → ℝ) (i : Fin count) : ℝ :=
  deriv (fun a => operation.realValue (Function.update point i a)) (point i)

/-- The operands at which a result is a lift, which have their values at a point of the interior of
the domain at which the operation is differentiable.  A power of a negative base is defined at whole
exponents only, so there its exponent rests. -/
def AdmittedAt {count : ℕ} (operation : DualOperation count) (point slopes : Fin count → ℝ) :
    Prop :=
  match operation, point, slopes with
  | binary .pow, p, d => 0 < p 0 ∨ p 0 ≠ 0 ∧ (∃ whole : ℤ, p 1 = whole) ∧ d 1 = 0
  | operation, p, _ => SmoothInside operation.RealDomain operation.realValue p

/-- The result is the first-order lift of the real operation: there is a partial derivative in each
operand that moves, and the result has the value of the real operation and the sum of its partial
derivatives, each multiplied by the slope of its operand. -/
structure LiftedAt {count : ℕ} (operation : DualOperation count) (point slopes : Fin count → ℝ) :
    Prop where
  differentiable : ∀ i, slopes i ≠ 0 →
    DifferentiableAt ℝ (fun a => operation.realValue (Function.update point i a)) (point i)
  result : operation.apply (fun i => Dual.ofKnown (point i) (slopes i)) =
    Dual.ofKnown (operation.realValue point) (∑ i, operation.partialSlope point i * slopes i)

end DualOperation

/-! ### Following a curve -/

theorem angleAt_eq (ordinate abscissa : ℝ) :
    angleAt ordinate abscissa = Complex.imCLM (Complex.log ⟨abscissa, ordinate⟩) :=
  (Complex.log_im _).symm

theorem sum_of_squares_pos {a b : ℝ} (apart : a ≠ 0 ∨ b ≠ 0) : 0 < a * a + b * b := by
  rcases apart with nonzero | nonzero
  · exact add_pos_of_pos_of_nonneg (mul_self_pos.mpr nonzero) (mul_self_nonneg b)
  · exact add_pos_of_nonneg_of_pos (mul_self_nonneg a) (mul_self_pos.mpr nonzero)

namespace Dual

open Exact

namespace Follows

variable {a b c : Dual (Exact ℝ)} {f g h : ℝ → ℝ} {time : ℝ}

theorem line (value slope : ℝ) : Follows (ofKnown value slope) (fun t => value + t * slope) 0 := by
  refine ⟨slope, ?_, ?_⟩
  · simpa using ((hasDerivAt_id' (0 : ℝ)).mul_const slope).const_add value
  · simp only [zero_mul, add_zero]

theorem congr (first : Follows a f time) (same : g =ᶠ[𝓝 time] f) : Follows a g time := by
  obtain ⟨slope, moves, rfl⟩ := first
  exact ⟨slope, moves.congr_of_eventuallyEq same, by rw [same.self_of_nhds]⟩

theorem add (first : Follows a f time) (second : Follows b g time) :
    Follows (a + b) (fun s => f s + g s) time := by
  obtain ⟨slope, moves, rfl⟩ := first
  obtain ⟨slope', moves', rfl⟩ := second
  exact ⟨slope + slope', moves.add moves', rfl⟩

theorem sub (first : Follows a f time) (second : Follows b g time) :
    Follows (a - b) (fun s => f s - g s) time := by
  obtain ⟨slope, moves, rfl⟩ := first
  obtain ⟨slope', moves', rfl⟩ := second
  exact ⟨slope - slope', moves.sub moves', rfl⟩

theorem mul (first : Follows a f time) (second : Follows b g time) :
    Follows (a * b) (fun s => f s * g s) time := by
  obtain ⟨slope, moves, rfl⟩ := first
  obtain ⟨slope', moves', rfl⟩ := second
  exact ⟨f time * slope' + slope * g time, (moves.mul moves').congr_deriv (add_comm _ _), rfl⟩

theorem div (first : Follows a f time) (second : Follows b g time) (nonzero : g time ≠ 0) :
    Follows (a / b) (fun s => f s / g s) time := by
  obtain ⟨slope, moves, rfl⟩ := first
  obtain ⟨slope', moves', rfl⟩ := second
  exact ⟨_, moves.div moves' nonzero, div_ofKnown nonzero⟩

theorem pow (first : Follows a f time) (second : Follows b g time) (positive : 0 < f time) :
    Follows (Scalar.pow a b) (fun s => f s ^ g s) time := by
  obtain ⟨slope, moves, rfl⟩ := first
  obtain ⟨slope', moves', rfl⟩ := second
  refine ⟨_, (moves.rpow moves' positive).congr_deriv ?_, pow_ofKnown_of_pos positive⟩
  ring

theorem remainder (first : Follows a f time) (second : Follows b g time) (nonzero : g time ≠ 0)
    (rests : Rests wholePart (f time / g time)) :
    Follows (a.remainder b) (fun s => f s - g s * wholePart (f s / g s)) time := by
  obtain ⟨slope, moves, rfl⟩ := first
  obtain ⟨slope', moves', rfl⟩ := second
  have whole := (hasDerivAt_of_rests rests).comp time (moves.div moves' nonzero)
  have taken : RichScalar.truncate (known (f time) / known (g time)) =
      known (wholePart (f time / g time) : ℝ) := by
    rw [known_div_of_ne_zero _ nonzero]
    rfl
  have value : RichScalar.remainder (known (f time)) (known (g time)) =
      known (f time - g time * wholePart (f time / g time)) :=
    onDomain_of_mem nonzero _
  refine ⟨slope - wholePart (f time / g time) * slope', ?_, ?_⟩
  · apply (moves.sub (moves'.mul whole)).congr_deriv
    rw [zero_mul, mul_zero, add_zero, mul_comm]
    rfl
  · change Dual.mk (RichScalar.remainder (known (f time)) (known (g time)))
      (known slope - RichScalar.truncate (known (f time) / known (g time)) * known slope') = _
    rw [value, taken]
    rfl

theorem logarithm (first : Follows a f time) (second : Follows b g time) (argument : 0 < f time)
    (base : 0 < g time) (notOne : g time ≠ 1) :
    Follows (a.logarithm b) (fun s => Real.log (f s) / Real.log (g s)) time := by
  have inside {a : ℝ} (positive : 0 < a) : (DualFunction.elementary .ln).RegularAt a :=
    ⟨positive, by simp⟩
  have upper := first.lifted (DualFunction.liftsAt (inside argument))
  have lower := second.lifted (DualFunction.liftsAt (inside base))
  exact upper.div lower (Real.log_ne_zero_of_pos_of_ne_one base notOne)

theorem hypotenuse (first : Follows a f time) (second : Follows b g time)
    (apart : f time ≠ 0 ∨ g time ≠ 0) :
    Follows (a.hypotenuse b) (fun s => √(f s ^ 2 + g s ^ 2)) time := by
  have squares := (first.mul first).add (second.mul second)
  have inside : (DualFunction.elementary .sqrt).RegularAt (f time * f time + g time * g time) :=
    ⟨sum_of_squares_pos apart, by simp⟩
  simp only [sq]
  exact squares.lifted (DualFunction.liftsAt inside)

theorem hasDerivAt_angleAt {slope slope' : ℝ} (moves : HasDerivAt f slope time)
    (moves' : HasDerivAt g slope' time) (apart : 0 < g time ∨ f time ≠ 0) :
    HasDerivAt (fun s => angleAt (f s) (g s))
      ((g time * slope - f time * slope') / (f time * f time + g time * g time)) time := by
  have point (s : ℝ) : (⟨g s, f s⟩ : ℂ) = g s + f s * Complex.I := Complex.mk_eq_add_mul_I _ _
  have plane : HasDerivAt (fun s => (⟨g s, f s⟩ : ℂ)) ⟨slope', slope⟩ time := by
    simp only [point, Complex.mk_eq_add_mul_I]
    exact moves'.ofReal_comp.add (moves.ofReal_comp.mul_const Complex.I)
  have angle := Complex.imCLM.hasFDerivAt.comp_hasDerivAt time (plane.clog_real apart)
  simp only [angleAt_eq]
  apply angle.congr_deriv
  rw [Complex.imCLM_apply, Complex.div_im, Complex.normSq_mk]
  ring

theorem angle (first : Follows a f time) (second : Follows b g time)
    (apart : 0 < g time ∨ f time ≠ 0) :
    Follows (a.angle b) (fun s => angleAt (f s) (g s)) time := by
  obtain ⟨slope, moves, rfl⟩ := first
  obtain ⟨slope', moves', rfl⟩ := second
  have nonzero : f time * f time + g time * g time ≠ 0 :=
    (sum_of_squares_pos (apart.symm.imp_right ne_of_gt)).ne'
  have quotient := known_div_of_ne_zero (g time * slope - f time * slope') nonzero
  exact ⟨_, hasDerivAt_angleAt moves moves' apart, congrArg (Dual.mk _) quotient⟩

theorem isLess_iff (first : Follows a f time) (second : Follows b g time) :
    Scalar.isLess a.value b.value = true ↔ f time < g time := by
  obtain ⟨_, _, rfl⟩ := first
  obtain ⟨_, _, rfl⟩ := second
  exact decide_eq_true_iff

theorem eventually_lt (first : Follows a f time) (second : Follows b g time)
    (less : f time < g time) : ∀ᶠ s in 𝓝 time, f s < g s := by
  obtain ⟨_, moves, _⟩ := first
  obtain ⟨_, moves', _⟩ := second
  exact moves.continuousAt.eventually_lt moves'.continuousAt less

theorem max (first : Follows a f time) (second : Follows b g time) (apart : f time ≠ g time) :
    Follows (a.max b) (fun s => Max.max (f s) (g s)) time := by
  unfold Dual.max
  rcases lt_or_gt_of_ne apart with less | greater
  · rw [if_neg fun above => less.not_gt ((second.isLess_iff first).mp above)]
    exact second.congr ((first.eventually_lt second less).mono fun _ below => max_eq_right below.le)
  · rw [if_pos ((second.isLess_iff first).mpr greater)]
    exact first.congr
      ((second.eventually_lt first greater).mono fun _ below => max_eq_left below.le)

theorem min (first : Follows a f time) (second : Follows b g time) (apart : f time ≠ g time) :
    Follows (a.min b) (fun s => Min.min (f s) (g s)) time := by
  unfold Dual.min
  rcases lt_or_gt_of_ne apart with less | greater
  · rw [if_pos ((first.isLess_iff second).mpr less)]
    exact first.congr ((first.eventually_lt second less).mono fun _ below => min_eq_left below.le)
  · rw [if_neg fun under => greater.not_gt ((first.isLess_iff second).mp under)]
    exact second.congr
      ((second.eventually_lt first greater).mono fun _ below => min_eq_right below.le)

theorem excess (first : Follows a f time) (second : Follows b g time) (apart : f time ≠ g time) :
    Follows (a.excess b) (fun s => Max.max (f s - g s) 0) time := by
  unfold Dual.excess
  rcases lt_or_gt_of_ne apart with less | greater
  · have rest : Follows (constant Scalar.zero) (fun _ => 0) time := by
      refine ⟨0, hasDerivAt_const time 0, ?_⟩
      rw [constant, zero_eq]
      rfl
    rw [if_neg fun above => less.not_gt ((second.isLess_iff first).mp above)]
    apply rest.congr
    filter_upwards [first.eventually_lt second less] with s below
    exact max_eq_right (sub_neg.mpr below).le
  · rw [if_pos ((second.isLess_iff first).mpr greater)]
    apply (first.sub second).congr
    filter_upwards [second.eventually_lt first greater] with s below
    exact max_eq_left (sub_pos.mpr below).le

end Follows

end Dual

namespace DualOperation

variable {count : ℕ} {operation : DualOperation count} {point : Fin count → ℝ}

theorem follows {operands : Fin count → Dual (Exact ℝ)} {curves : Fin count → ℝ → ℝ} {time : ℝ}
    (regular : operation.RegularAt fun i => curves i time)
    (following : ∀ i, Dual.Follows (operands i) (curves i) time) :
    Dual.Follows (operation.apply operands) (fun s => operation.realValue fun i => curves i s)
      time := by
  cases operation with
  | unary function => exact (following 0).lifted (DualFunction.liftsAt regular)
  | binary operator =>
    cases operator with
    | add => exact (following 0).add (following 1)
    | sub => exact (following 0).sub (following 1)
    | mul => exact (following 0).mul (following 1)
    | div => exact (following 0).div (following 1) regular
    | pow => exact (following 0).pow (following 1) regular
  | remainder =>
    exact (following 0).remainder (following 1) regular.1 (rests_wholePart_iff.mpr regular.2)
  | logarithm => exact (following 0).logarithm (following 1) regular.1 regular.2.1 regular.2.2
  | angle => exact (following 0).angle (following 1) regular
  | max => exact (following 0).max (following 1) regular
  | min => exact (following 0).min (following 1) regular
  | excess => exact (following 0).excess (following 1) regular
  | hypotenuse => exact (following 0).hypotenuse (following 1) regular
  | multiplyAdd => exact ((following 0).mul (following 1)).add (following 2)

theorem eventually_lt {i j : Fin count} (less : point i < point j) :
    ∀ᶠ q in 𝓝 point, q i < q j :=
  (continuous_apply i).continuousAt.eventually_lt (continuous_apply j).continuousAt less

theorem differentiableAt_quotient {f g : (Fin count → ℝ) → ℝ} (first : DifferentiableAt ℝ f point)
    (second : DifferentiableAt ℝ g point) (nonzero : g point ≠ 0) :
    DifferentiableAt ℝ (fun q => f q / g q) point := by
  simp only [div_eq_mul_inv]
  exact first.mul (second.inv nonzero)

theorem differentiableAt_angle {point : Fin 2 → ℝ} (apart : 0 < point 1 ∨ point 0 ≠ 0) :
    DifferentiableAt ℝ (fun q : Fin 2 → ℝ => angleAt (q 0) (q 1)) point := by
  have coordinate (i : Fin 2) : DifferentiableAt ℝ (fun q : Fin 2 → ℝ => (q i : ℂ)) point :=
    Complex.ofRealCLM.differentiableAt.comp point (differentiableAt_apply i point)
  have plane : DifferentiableAt ℝ (fun q : Fin 2 → ℝ => (⟨q 1, q 0⟩ : ℂ)) point := by
    simp only [Complex.mk_eq_add_mul_I]
    exact (coordinate 1).add ((coordinate 0).mul_const Complex.I)
  have logarithm := ((Complex.differentiableAt_log apart).restrictScalars ℝ).comp point plane
  simp only [angleAt_eq]
  exact Complex.imCLM.differentiableAt.comp point logarithm

theorem differentiableAt_realValue (regular : operation.RegularAt point) :
    DifferentiableAt ℝ operation.realValue point := by
  have coordinate (i : Fin count) : DifferentiableAt ℝ (fun q : Fin count → ℝ => q i) point :=
    differentiableAt_apply i point
  cases operation with
  | unary function =>
    obtain ⟨slope, derivative, -⟩ := DualFunction.liftsAt regular
    exact derivative.differentiableAt.comp point (coordinate 0)
  | binary operator =>
    cases operator with
    | add => exact (coordinate 0).add (coordinate 1)
    | sub => exact (coordinate 0).sub (coordinate 1)
    | mul => exact (coordinate 0).mul (coordinate 1)
    | div => exact differentiableAt_quotient (coordinate 0) (coordinate 1) regular
    | pow => exact (coordinate 0).rpow (coordinate 1) (ne_of_gt regular)
  | remainder =>
    have rests := hasDerivAt_of_rests (rests_wholePart_iff.mpr regular.2)
    have quotient := differentiableAt_quotient (coordinate 0) (coordinate 1) regular.1
    have whole := rests.differentiableAt.comp point quotient
    exact (coordinate 0).sub ((coordinate 1).mul whole)
  | logarithm =>
    exact differentiableAt_quotient ((coordinate 0).log regular.1.ne')
      ((coordinate 1).log regular.2.1.ne')
      (Real.log_ne_zero_of_pos_of_ne_one regular.2.1 regular.2.2)
  | angle => exact differentiableAt_angle regular
  | max =>
    rcases lt_or_gt_of_ne regular with less | greater
    · apply (coordinate 1).congr_of_eventuallyEq
      exact (eventually_lt less).mono fun q below => max_eq_right below.le
    · apply (coordinate 0).congr_of_eventuallyEq
      exact (eventually_lt greater).mono fun q below => max_eq_left below.le
  | min =>
    rcases lt_or_gt_of_ne regular with less | greater
    · apply (coordinate 0).congr_of_eventuallyEq
      exact (eventually_lt less).mono fun q below => min_eq_left below.le
    · apply (coordinate 1).congr_of_eventuallyEq
      exact (eventually_lt greater).mono fun q below => min_eq_right below.le
  | excess =>
    rcases lt_or_gt_of_ne regular with less | greater
    · apply (differentiableAt_const 0).congr_of_eventuallyEq
      exact (eventually_lt less).mono fun q below => max_eq_right (sub_neg.mpr below).le
    · apply ((coordinate 0).sub (coordinate 1)).congr_of_eventuallyEq
      exact (eventually_lt greater).mono fun q below => max_eq_left (sub_pos.mpr below).le
  | hypotenuse =>
    have positive : 0 < point 0 ^ 2 + point 1 ^ 2 := by
      simp only [sq]
      exact sum_of_squares_pos regular
    exact (((coordinate 0).pow 2).add ((coordinate 1).pow 2)).sqrt positive.ne'
  | multiplyAdd => exact ((coordinate 0).mul (coordinate 1)).add (coordinate 2)

theorem eventually_realDomain (regular : operation.RegularAt point) :
    ∀ᶠ q in 𝓝 point, operation.RealDomain q := by
  have around (i : Fin count) {property : ℝ → Prop} (near : ∀ᶠ a in 𝓝 (point i), property a) :
      ∀ᶠ q in 𝓝 point, property (q i) :=
    (continuous_apply i).continuousAt.eventually near
  cases operation with
  | unary function => exact around 0 (DualFunction.smoothInside_iff.mpr regular).inside
  | binary operator =>
    cases operator with
    | div => exact around 1 (eventually_ne_nhds regular)
    | pow => exact (around 0 (lt_mem_nhds regular)).mono fun q positive => .inl positive
    | _ => exact .of_forall fun _ => trivial
  | remainder => exact around 1 (eventually_ne_nhds regular.1)
  | logarithm =>
    have argument := around 0 (lt_mem_nhds regular.1)
    have base := around 1 (lt_mem_nhds regular.2.1)
    exact argument.and (base.and (around 1 (eventually_ne_nhds regular.2.2)))
  | _ => exact .of_forall fun _ => trivial

section Pairs

variable {point : Fin 2 → ℝ}

theorem pair_eta (point : Fin 2 → ℝ) : ![point 0, point 1] = point :=
  funext (Fin.forall_fin_two.mpr ⟨rfl, rfl⟩)

theorem differentiableAt_path {F : ℝ → ℝ → ℝ} {f g : ℝ → ℝ} {time : ℝ}
    (differentiable : DifferentiableAt ℝ (fun q : Fin 2 → ℝ => F (q 0) (q 1)) point)
    (first : DifferentiableAt ℝ f time) (second : DifferentiableAt ℝ g time)
    (left : f time = point 0) (right : g time = point 1) :
    DifferentiableAt ℝ (fun s => F (f s) (g s)) time := by
  have moves : DifferentiableAt ℝ (fun s => ![f s, g s]) time :=
    differentiableAt_pi.mpr (Fin.forall_fin_two.mpr ⟨first, second⟩)
  rw [← pair_eta point, ← left, ← right] at differentiable
  exact differentiable.comp time moves

theorem ne_of_differentiableAt_gap
    (differentiable : DifferentiableAt ℝ (fun q : Fin 2 → ℝ => |q 0 - q 1|) point) :
    point 0 ≠ point 1 := by
  intro tie
  have corner := differentiableAt_path (F := fun a b => |a - b|) differentiable
    (differentiableAt_id.add_const (point 1)) (differentiableAt_const (point 1))
    (by rw [id, zero_add, tie]) rfl
  simp only [id, add_sub_cancel_right] at corner
  exact not_differentiableAt_abs_zero corner

theorem abs_sub_eq_max (a b : ℝ) : |a - b| = Max.max a b + Max.max a b - (a + b) := by
  rw [← max_sub_min_eq_abs', ← max_add_min a b]
  ring

theorem abs_sub_eq_min (a b : ℝ) : |a - b| = a + b - (Min.min a b + Min.min a b) := by
  rw [← max_sub_min_eq_abs', ← max_add_min a b]
  ring

theorem abs_eq_max_zero (a : ℝ) : |a| = Max.max a 0 + Max.max a 0 - a := by
  rcases le_total 0 a with nonneg | nonpos
  · rw [abs_of_nonneg nonneg, max_eq_left nonneg]
    ring
  · rw [abs_of_nonpos nonpos, max_eq_right nonpos]
    ring

/-- Beside a base that is not positive there are negative bases with an irrational exponent. -/
theorem base_pos_of_eventually_powerDomain
    (inside : ∀ᶠ q in 𝓝 point, PowerDomain (q 0) (q 1)) : 0 < point 0 := by
  by_contra outside
  -- On this path the base is negative at once, and the exponent runs through irrational numbers.
  have leaves : Tendsto (fun s : ℝ => ![point 0 - s, point 1 + s]) (𝓝 0) (𝓝 point) := by
    have moves : Continuous fun s : ℝ => ![point 0 - s, point 1 + s] := by fun_prop
    simpa [pair_eta] using moves.tendsto 0
  obtain ⟨lower, upper, ⟨past, room⟩, near⟩ :=
    mem_nhds_iff_exists_Ioo_subset.mp (leaves.eventually inside)
  obtain ⟨exponent, irrational, above, below⟩ :=
    exists_irrational_btwn (lt_add_of_pos_right (point 1) room)
  have later : 0 < exponent - point 1 := sub_pos.mpr above
  have defined : PowerDomain (point 0 - (exponent - point 1)) (point 1 + (exponent - point 1)) :=
    near ⟨past.trans later, sub_lt_iff_lt_add'.mpr below⟩
  have negative : point 0 - (exponent - point 1) < 0 := by linarith [not_lt.mp outside]
  rw [add_sub_cancel] at defined
  rcases defined with positive | ⟨zero, _⟩ | ⟨_, whole, same⟩
  · exact negative.not_gt positive
  · exact negative.ne zero
  · exact irrational.ne_int whole same

/-- An angle jumps between the two sides of the negative abscissas, and at the origin. -/
theorem off_cut_of_differentiableAt_angle
    (differentiable : DifferentiableAt ℝ (fun q : Fin 2 → ℝ => angleAt (q 0) (q 1)) point) :
    0 < point 1 ∨ point 0 ≠ 0 := by
  by_contra cut
  rw [not_or, not_lt, not_not] at cut
  obtain ⟨abscissa, ordinate⟩ := cut
  rcases abscissa.lt_or_eq with negative | zero
  · have across := differentiableAt_path differentiable differentiableAt_id
      (differentiableAt_const (point 1)) ordinate.symm rfl
    have start : 0 < angleAt 0 (point 1) := by
      rw [angleAt, ← Complex.ofReal, Complex.arg_ofReal_of_neg negative]
      exact Real.pi_pos
    have positive := across.continuousAt.eventually (lt_mem_nhds start)
    obtain ⟨s, below, above⟩ := ((frequently_lt_nhds 0).and_eventually positive).exists
    exact absurd (Complex.arg_neg_iff.mpr below) above.not_gt
  · have along := differentiableAt_path differentiable (differentiableAt_const 0)
      differentiableAt_id ordinate.symm zero.symm
    have start : angleAt 0 0 < Real.pi := by
      rw [angleAt, ← Complex.ofReal, Complex.arg_ofReal_of_nonneg le_rfl]
      exact Real.pi_pos
    have under := along.continuousAt.eventually (gt_mem_nhds start)
    obtain ⟨s, below, above⟩ := ((frequently_lt_nhds 0).and_eventually under).exists
    exact absurd (Complex.arg_ofReal_of_neg below) above.ne

theorem rests_of_differentiableAt_remainder (nonzero : point 1 ≠ 0)
    (differentiable : DifferentiableAt ℝ
      (fun q : Fin 2 → ℝ => q 0 - q 1 * wholePart (q 0 / q 1)) point) :
    Rests wholePart (point 0 / point 1) := by
  have scaled : DifferentiableAt ℝ (fun s => s * point 1) (point 0 / point 1) :=
    differentiableAt_id.mul_const (point 1)
  have left := differentiableAt_path (F := fun a b => a - b * wholePart (a / b)) differentiable
    scaled (differentiableAt_const (point 1)) (div_mul_cancel₀ _ nonzero) rfl
  have whole : DifferentiableAt ℝ (fun s => point 1 * (wholePart s : ℝ)) (point 0 / point 1) := by
    simpa [nonzero] using scaled.sub left
  rw [rests_iff_differentiableAt]
  simpa [nonzero] using whole.const_mul (point 1)⁻¹

theorem ne_zero_of_differentiableAt_hypotenuse
    (differentiable : DifferentiableAt ℝ (fun q : Fin 2 → ℝ => √(q 0 ^ 2 + q 1 ^ 2)) point) :
    point 0 ≠ 0 ∨ point 1 ≠ 0 := by
  by_contra origin
  rw [not_or, not_not, not_not] at origin
  have corner := differentiableAt_path (F := fun a b => √(a ^ 2 + b ^ 2)) differentiable
    differentiableAt_id (differentiableAt_const 0) origin.1.symm origin.2.symm
  apply not_differentiableAt_abs_zero
  simpa [Real.sqrt_sq_eq_abs] using corner

end Pairs

theorem regularAt_of_smoothInside
    (smooth : SmoothInside operation.RealDomain operation.realValue point) :
    operation.RegularAt point := by
  have here := smooth.inside.self_of_nhds
  have differentiable := smooth.differentiable
  have coordinate (i : Fin count) : DifferentiableAt ℝ (fun q : Fin count → ℝ => q i) point :=
    differentiableAt_apply i point
  cases operation with
  | unary function =>
    apply DualFunction.smoothInside_iff.mp
    let path (s : ℝ) : Fin 1 → ℝ := fun _ => s
    have moves : DifferentiableAt ℝ path (point 0) :=
      differentiableAt_pi.mpr fun _ => differentiableAt_id
    have same : point = path (point 0) := funext (Fin.forall_fin_one.mpr rfl)
    rw [same] at smooth
    exact smooth.along moves
  | binary operator =>
    cases operator with
    | div => exact here
    | pow => exact base_pos_of_eventually_powerDomain smooth.inside
    | _ => trivial
  | remainder =>
    exact ⟨here, rests_wholePart_iff.mp (rests_of_differentiableAt_remainder here differentiable)⟩
  | logarithm => exact here
  | angle => exact off_cut_of_differentiableAt_angle differentiable
  | max =>
    apply ne_of_differentiableAt_gap
    simp only [abs_sub_eq_max]
    exact (differentiable.add differentiable).sub ((coordinate 0).add (coordinate 1))
  | min =>
    apply ne_of_differentiableAt_gap
    simp only [abs_sub_eq_min]
    exact ((coordinate 0).add (coordinate 1)).sub (differentiable.add differentiable)
  | excess =>
    apply ne_of_differentiableAt_gap
    simp only [abs_eq_max_zero]
    exact (differentiable.add differentiable).sub ((coordinate 0).sub (coordinate 1))
  | hypotenuse => exact ne_zero_of_differentiableAt_hypotenuse differentiable
  | multiplyAdd => trivial

/-- The regular points of an operation are those in the interior of its domain at which it is
differentiable. -/
theorem smoothInside_iff :
    SmoothInside operation.RealDomain operation.realValue point ↔ operation.RegularAt point := by
  constructor
  · exact regularAt_of_smoothInside
  · exact fun regular => ⟨eventually_realDomain regular, differentiableAt_realValue regular⟩

/-! ### First-order lifts -/

theorem hasDerivAt_partialSlope (differentiable : DifferentiableAt ℝ operation.realValue point)
    (i : Fin count) :
    HasDerivAt (fun a => operation.realValue (Function.update point i a))
      (fderiv ℝ operation.realValue point (Pi.single i 1)) (point i) :=
  differentiable.hasFDerivAt.comp_hasDerivAt_of_eq (point i) (hasDerivAt_update point i (point i))
    (Function.update_eq_self i point).symm

/-- Along a straight line the slopes of the operands each contribute their part. -/
theorem hasDerivAt_along_line (differentiable : DifferentiableAt ℝ operation.realValue point)
    (slopes : Fin count → ℝ) :
    HasDerivAt (fun s => operation.realValue fun i => point i + s * slopes i)
      (∑ i, operation.partialSlope point i * slopes i) 0 := by
  have line : HasDerivAt (fun (s : ℝ) i => point i + s * slopes i) slopes 0 := by
    apply hasDerivAt_pi.mpr
    intro i
    simpa using ((hasDerivAt_id' (0 : ℝ)).mul_const (slopes i)).const_add (point i)
  have start : point = fun i => point i + 0 * slopes i := by
    simp only [zero_mul, add_zero]
  have parts : fderiv ℝ operation.realValue point slopes =
      ∑ i, operation.partialSlope point i * slopes i := by
    have basis := congrArg (fderiv ℝ operation.realValue point) (pi_eq_sum_univ' slopes)
    rw [basis, map_sum]
    apply Finset.sum_congr rfl
    intro i _
    rw [map_smul, smul_eq_mul, mul_comm, partialSlope,
      (hasDerivAt_partialSlope differentiable i).deriv]
  rw [← parts]
  exact differentiable.hasFDerivAt.comp_hasDerivAt_of_eq 0 line start

theorem liftedAt_of_regularAt (regular : operation.RegularAt point) (slopes : Fin count → ℝ) :
    operation.LiftedAt point slopes where
  differentiable i _ :=
    (hasDerivAt_partialSlope (differentiableAt_realValue regular) i).differentiableAt
  result := by
    have start : (fun i => point i + 0 * slopes i) = point := by
      simp only [zero_mul, add_zero]
    have begins : operation.RegularAt fun i => point i + 0 * slopes i := by
      rw [start]
      exact regular
    obtain ⟨slope, moves, result⟩ := follows begins fun i => Dual.Follows.line (point i) (slopes i)
    have sum := hasDerivAt_along_line (differentiableAt_realValue regular) slopes
    simp only [start] at result
    rw [result, moves.unique sum]

theorem hasDerivAt_base {point : Fin 2 → ℝ} (nonzero : point 0 ≠ 0) :
    HasDerivAt (fun a => (binary .pow).realValue (Function.update point 0 a))
      (point 1 * point 0 ^ (point 1 - 1)) (point 0) :=
  Real.hasDerivAt_rpow_const (.inl nonzero)

theorem liftedAt_wholePower {point slopes : Fin 2 → ℝ} {whole : ℤ} (nonzero : point 0 ≠ 0)
    (exponent : point 1 = whole) (rests : slopes 1 = 0) :
    (binary .pow).LiftedAt point slopes where
  differentiable i moves := by
    obtain rfl | rfl : i = 0 ∨ i = 1 := by omega
    · exact (hasDerivAt_base nonzero).differentiableAt
    · exact absurd rests moves
  result := by
    have defined : ExactMeaning.pow (point 0) (point 1) = .known (point 0 ^ point 1) := by
      rw [exponent]
      exact pow_intCast (.inl nonzero)
    have below : ExactMeaning.pow (point 0) (point 1 - 1) = .known (point 0 ^ (point 1 - 1)) := by
      have lower : point 1 - 1 = ((whole - 1 : ℤ) : ℝ) := by
        rw [exponent, Int.cast_sub, Int.cast_one]
      rw [lower]
      exact pow_intCast (.inl nonzero)
    have slope : (binary .pow).partialSlope point 0 = point 1 * point 0 ^ (point 1 - 1) :=
      (hasDerivAt_base nonzero).deriv
    rw [Fin.sum_univ_two, slope, rests, mul_zero, add_zero]
    change Scalar.pow (Dual.ofKnown (point 0) (slopes 0)) (Dual.ofKnown (point 1) (slopes 1)) = _
    rw [rests]
    exact Dual.pow_ofKnown_of_rest defined below

/-- Every operation on dual numbers is the first-order lift of its real operation. -/
theorem liftedAt_of_admittedAt {slopes : Fin count → ℝ}
    (admitted : operation.AdmittedAt point slopes) : operation.LiftedAt point slopes := by
  cases operation with
  | binary operator =>
    cases operator with
    | pow =>
      rcases admitted with positive | ⟨nonzero, ⟨whole, exponent⟩, rests⟩
      · have regular : (binary .pow).RegularAt point := positive
        exact liftedAt_of_regularAt regular slopes
      · exact liftedAt_wholePower nonzero exponent rests
    | _ => exact liftedAt_of_regularAt (regularAt_of_smoothInside admitted) slopes
  | _ => exact liftedAt_of_regularAt (regularAt_of_smoothInside admitted) slopes

/-- A cube of a negative number, and a remainder between its jumps. -/
theorem liftedAt_cube_and_remainder :
    (binary .pow).apply ![Dual.ofKnown (-2) 1, Dual.ofKnown 3 0] = Dual.ofKnown (-8) 12 ∧
      remainder.LiftedAt ![7, 2] ![1, 1] := by
  constructor
  · have nonzero : ![(-2 : ℝ), 3] 0 ≠ 0 := by norm_num
    have admitted : (binary .pow).AdmittedAt ![-2, 3] ![1, 0] :=
      .inr ⟨nonzero, ⟨3, by norm_num⟩, rfl⟩
    have value : (binary .pow).realValue ![-2, 3] = -8 := by
      change (-2 : ℝ) ^ (3 : ℝ) = -8
      norm_num
    have slope : (binary .pow).partialSlope ![-2, 3] 0 = 12 := by
      rw [partialSlope, (hasDerivAt_base nonzero).deriv]
      norm_num
    have result := (liftedAt_of_admittedAt admitted).result
    have total : 12 * ![(1 : ℝ), 0] 0 + (binary .pow).partialSlope ![-2, 3] 1 * 0 = 12 := by simp
    rw [Fin.sum_univ_two, value, slope] at result
    exact result.trans (congrArg (Dual.ofKnown (-8)) total)
  · have regular : remainder.RegularAt ![7, 2] := by
      refine ⟨by norm_num, fun n _ whole => ?_⟩
      have odd : (7 : ℝ) = n * 2 := (div_eq_iff two_ne_zero).mp whole
      have parity : (7 : ℤ) = n * 2 := by exact_mod_cast odd
      omega
    exact liftedAt_of_admittedAt (smoothInside_iff.mpr regular)

end DualOperation

end Tangency
