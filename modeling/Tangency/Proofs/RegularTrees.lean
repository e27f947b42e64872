/-
Derivatives of every order.

A tree is regular at a point if all of its parts are defined there and every operation
keeps away from the edge of its domain.  A regular tree stays regular around the point,
its function has a derivative there, and the derivative tree is regular again and
denotes the slope of the function.  So differentiation can be repeated, and the tree
after any number of rounds denotes the derivative of that order.

A power without a positive base is regular for a whole literal exponent only, as the
rule of such a power asks no logarithm of its base.
-/

import Mathlib.Analysis.Calculus.ContDiff.Deriv
import Mathlib.Analysis.Calculus.Deriv.ZPow
import Mathlib.Analysis.Calculus.IteratedDeriv.Lemmas
import Tangency.Proofs.DerivativeRules

namespace Tangency

open Filter Topology

/-- A power has a positive base, or a whole literal exponent for which its base may be inverted
where the exponent is negative. A function is smooth at its argument, and a logarithm to a base has
positive arguments and a base other than one. -/
def regularity : Conditions ℝ where
  power base exponent _ :=
    0 < base ∨ ∃ whole : ℤ, exponent = .number (.known whole) ∧ (base ≠ 0 ∨ 0 ≤ whole)
  call := Elementary.Allows Elementary.SmoothAt

def Expr.RegularAt (x : ℝ) (tree : Expr (Exact ℝ)) : Prop := tree.Throughout (regularity.MetAt x)

noncomputable def Expr.realFunction (tree : Expr (Exact ℝ)) (y : ℝ) : ℝ := (tree.exactAt y).toField

theorem regularity_lenient : regularity.Lenient where
  positive above _ _ := .inl above
  whole allowed := .inr ⟨_, rfl, allowed⟩
  smooth smooth := Elementary.allows_singleton_iff.mpr smooth

theorem Denotes.realFunction_eq {x value : ℝ} {tree : Expr (Exact ℝ)}
    (denotes : Denotes regularity x tree value) : tree.realFunction x = value :=
  congrArg Exact.toField denotes.exactAt_eq

/-- The rule of a regular power is admitted again. With the exponent zero nothing is asked, and with
another whole exponent the power below is regular. -/
theorem regularity_admitsPowerRule {a b : ℝ} {exponent : Expr (Exact ℝ)} {x : ℝ}
    (denotes : Denotes regularity x exponent b) (met : regularity.power a exponent b) :
    regularity.AdmitsPowerRule a exponent b := by
  rcases met with positive | ⟨whole, rfl, allowed⟩
  · exact .inl positive
  · by_cases zero : whole = 0
    · subst zero
      refine .inr (.inl ?_)
      rw [Int.cast_zero, Expr.isZero_known]
      exact decide_eq_true rfl
    · have below : a ≠ 0 ∨ 0 ≤ whole - 1 := by
        rcases allowed with nonzero | nonneg
        · exact .inl nonzero
        · exact .inr (by omega)
      have exponentValue : b = whole := Exact.known_injective denotes.exactAt_eq.symm
      have lower : b - 1 = ((whole - 1 : ℤ) : ℝ) := by
        rw [exponentValue, Int.cast_sub, Int.cast_one]
      refine .inr (.inr ⟨rfl, ?_, ?_⟩)
      · rw [lower]
        exact pow_intCast below
      · rw [Expr.difference_one, ← exponentValue, lower]
        exact regularity_lenient.whole below

/-- Around a point the tree denotes a function with a derivative at the point, which the derivative
tree denotes. A tree without the variable has slope zero. -/
structure Differentiated (x : ℝ) (tree : Expr (Exact ℝ)) (f : ℝ → ℝ) (d : ℝ) : Prop where
  nearby : ∀ᶠ y in 𝓝 x, Denotes regularity y tree (f y)
  hasDerivAt : HasDerivAt f d x
  slope : Denotes regularity x tree.derivative d
  rests : tree.isConstant = true → d = 0

namespace Differentiated

variable {x : ℝ} {tree left right : Expr (Exact ℝ)} {f g : ℝ → ℝ} {d e : ℝ}

theorem denotes (here : Differentiated x tree f d) : Denotes regularity x tree (f x) :=
  here.nearby.self_of_nhds

theorem eventually (here : Differentiated x tree f d) {property : ℝ → Prop}
    (around : ∀ᶠ a in 𝓝 (f x), property a) : ∀ᶠ y in 𝓝 x, property (f y) :=
  here.hasDerivAt.continuousAt.tendsto.eventually around

theorem number (value : ℝ) : Differentiated x (.number (.known value)) (fun _ => value) 0 where
  nearby := .of_forall fun _ => .number value
  hasDerivAt := hasDerivAt_const x value
  slope := .zero
  rests _ := rfl

theorem var : Differentiated x .var (fun y => y) 1 where
  nearby := .of_forall fun _ => .var
  hasDerivAt := hasDerivAt_id x
  slope := .one
  rests constant := by cases constant

theorem neg (inner : Differentiated x tree f d) :
    Differentiated x (.neg tree) (fun y => -f y) (-d) where
  nearby := inner.nearby.mono fun _ denotes => .neg denotes
  hasDerivAt := inner.hasDerivAt.neg
  slope := inner.slope.negated
  rests constant := by rw [inner.rests constant, neg_zero]

theorem operation_nearby {operator : Operator} {value : ℝ} (first : Differentiated x left f d)
    (second : Differentiated x right g e)
    (defined : operator.apply (Exact.known (f x)) (Exact.known (g x)) = .known value)
    (met : regularity.operation operator (f x) right (g x)) :
    ∀ᶠ y in 𝓝 x, Denotes regularity y (.binary operator left right)
      (operator.realValue (f y) (g y)) := by
  cases operator with
  | add | sub | mul =>
    filter_upwards [first.nearby, second.nearby] with y firstDenotes secondDenotes
    exact .binary firstDenotes secondDenotes rfl trivial
  | div =>
    have nonzero : g x ≠ 0 := (Exact.eq_of_known_div defined).1
    filter_upwards [first.nearby, second.nearby,
      second.eventually (eventually_ne_nhds nonzero)] with y firstDenotes secondDenotes apart
    exact .binary firstDenotes secondDenotes (Exact.known_div_of_ne_zero _ apart) trivial
  | pow =>
    rcases met with positive | ⟨whole, rfl, allowed⟩
    · filter_upwards [first.nearby, second.nearby,
        first.eventually (lt_mem_nhds positive)] with y firstDenotes secondDenotes above
      exact .binary firstDenotes secondDenotes (pow_of_pos above _) (.inl above)
    · have around : ∀ᶠ a in 𝓝 (f x), a ≠ 0 ∨ 0 ≤ whole := by
        rcases allowed with nonzero | nonneg
        · exact (eventually_ne_nhds nonzero).mono fun _ => .inl
        · exact .of_forall fun _ => .inr nonneg
      -- The exponent denotes the same whole number everywhere; only the base has to be followed.
      filter_upwards [first.nearby, second.nearby, first.eventually around] with y firstDenotes
        secondDenotes allowedNearby
      have exponentValue : g y = whole := secondDenotes.value_unique (.number _)
      refine .binary firstDenotes secondDenotes ?_ (.inr ⟨whole, rfl, allowedNearby⟩)
      rw [exponentValue]
      exact pow_intCast allowedNearby

theorem hasDerivAt_whole_power {whole : ℤ} (first : Differentiated x left f d)
    (second : Differentiated x (.number (.known whole)) g e) (allowed : f x ≠ 0 ∨ 0 ≤ whole) :
    HasDerivAt (fun y => f y ^ g y) (Operator.realSlope .pow (f x) d (g x) e) x := by
  have exponentValue {y : ℝ} (denotes : Denotes regularity y (.number (.known whole)) (g y)) :
      g y = whole :=
    denotes.value_unique (.number _)
  have power : HasDerivAt (fun y => f y ^ whole) (whole * f x ^ (whole - 1) * d) x :=
    (hasDerivAt_zpow whole (f x) allowed).comp x first.hasDerivAt
  have same : (fun y => f y ^ g y) =ᶠ[𝓝 x] fun y => f y ^ whole := by
    filter_upwards [second.nearby] with y denotes
    rw [exponentValue denotes, Real.rpow_intCast]
  have slope : Operator.realSlope .pow (f x) d (g x) e = whole * f x ^ (whole - 1) * d := by
    have lower : (whole : ℝ) - 1 = ((whole - 1 : ℤ) : ℝ) := by
      rw [Int.cast_sub, Int.cast_one]
    rw [Operator.realSlope, second.rests rfl, exponentValue second.denotes, mul_zero, add_zero,
      lower, Real.rpow_intCast]
  rw [slope]
  exact power.congr_of_eventuallyEq same

theorem hasDerivAt_operation {operator : Operator} {value : ℝ} (first : Differentiated x left f d)
    (second : Differentiated x right g e)
    (defined : operator.apply (Exact.known (f x)) (Exact.known (g x)) = .known value)
    (met : regularity.operation operator (f x) right (g x)) :
    HasDerivAt (fun y => operator.realValue (f y) (g y))
      (operator.realSlope (f x) d (g x) e) x := by
  cases operator with
  | add => exact first.hasDerivAt.add second.hasDerivAt
  | sub => exact first.hasDerivAt.sub second.hasDerivAt
  | mul => exact first.hasDerivAt.mul second.hasDerivAt
  | div => exact first.hasDerivAt.div second.hasDerivAt (Exact.eq_of_known_div defined).1
  | pow =>
    rcases met with positive | ⟨whole, rfl, allowed⟩
    · have power := first.hasDerivAt.rpow second.hasDerivAt positive
      apply power.congr_deriv
      rw [Operator.realSlope]
      ring
    · exact hasDerivAt_whole_power first second allowed

theorem binary {operator : Operator} {value : ℝ} (first : Differentiated x left f d)
    (second : Differentiated x right g e)
    (defined : operator.apply (Exact.known (f x)) (Exact.known (g x)) = .known value)
    (met : regularity.operation operator (f x) right (g x)) :
    Differentiated x (.binary operator left right) (fun y => operator.realValue (f y) (g y))
      (operator.realSlope (f x) d (g x) e) where
  nearby := operation_nearby first second defined met
  hasDerivAt := hasDerivAt_operation first second defined met
  slope := by
    apply regularity_lenient.operatorRule first.denotes first.slope second.denotes second.slope
      first.rests second.rests defined
    intro power
    subst power
    exact regularity_admitsPowerRule second.denotes met
  rests constant := by
    rw [Expr.isConstant, Bool.and_eq_true_iff] at constant
    rw [first.rests constant.1, second.rests constant.2]
    exact Operator.realSlope_zero operator (f x) (g x)

theorem call {function : Elementary} (inner : Differentiated x tree f d)
    (smooth : function.SmoothAt (f x)) :
    Differentiated x (.call function [tree]) (fun y => function.realValue (f y))
      (function.realSlope (f x) * d) where
  nearby := by
    filter_upwards [inner.nearby,
      inner.eventually (Elementary.eventually_smoothAt smooth)] with y denotes smoothNearby
    exact .call denotes (Elementary.applyOne_known smoothNearby.1)
      (Elementary.allows_singleton_iff.mpr smoothNearby)
  hasDerivAt := (Elementary.hasDerivAt_realValue smooth).comp x inner.hasDerivAt
  slope := regularity_lenient.callRule inner.denotes inner.slope smooth.1
  rests constant := by
    rw [Expr.isConstant_call_singleton] at constant
    rw [inner.rests constant, mul_zero]

theorem logarithm (first : Differentiated x left f d) (second : Differentiated x right g e)
    (argumentPositive : 0 < f x) (basePositive : 0 < g x) (baseNotOne : g x ≠ 1) :
    Differentiated x (.call .log [left, right]) (fun y => Real.log (f y) / Real.log (g y))
      (logarithmSlopeToBase (f x) d (g x) e) where
  nearby := by
    filter_upwards [first.nearby, second.nearby, first.eventually (lt_mem_nhds argumentPositive),
      second.eventually (lt_mem_nhds basePositive),
      second.eventually (eventually_ne_nhds baseNotOne)] with y firstDenotes secondDenotes argument
        base notOne
    exact .logarithm firstDenotes secondDenotes (Exact.ln_div_ln argument base notOne)
      ⟨argument, base, notOne⟩
  hasDerivAt :=
    (first.hasDerivAt.log argumentPositive.ne').div (second.hasDerivAt.log basePositive.ne')
      (Real.log_ne_zero_of_pos_of_ne_one basePositive baseNotOne)
  slope := regularity_lenient.baseRule first.denotes first.slope second.denotes second.slope
    first.rests second.rests argumentPositive basePositive baseNotOne
  rests constant := by
    rw [Expr.isConstant_call_pair, Bool.and_eq_true_iff] at constant
    rw [first.rests constant.1, second.rests constant.2]
    exact logarithmSlopeToBase_zero (f x) (g x)

end Differentiated

end Tangency
