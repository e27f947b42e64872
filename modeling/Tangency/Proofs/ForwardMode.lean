/-
Forward mode agrees with symbolic differentiation.

A program is run over exact dual numbers, from a point with any slope as its seed, and
the tree of the program is differentiated symbolically.  Both are defined under the same
conditions, and the run returns the value of the tree with the value of the derivative
tree, times the seed.  The induction carries along that a tree without the variable has
slope zero: the symbolic rule of a power asks whether the exponent mentions the
variable, the run asks whether its slope vanishes at the point.
-/

import Tangency.Proofs.DerivativeRules
import Tangency.Proofs.DualMeaning
import Tangency.Proofs.ProgramMeaning

namespace Tangency

/-- A power has a positive base, or an exponent without the variable for which the power below is
defined too. A function is inside of its domain, and a logarithm to a base has positive arguments
and a base other than one. -/
def traceability : Conditions ℝ where
  power base exponent value :=
    0 < base ∨
      (exponent.isConstant = true ∧ ∃ below, ExactMeaning.pow base (value - 1) = .known below)
  call := Elementary.Allows Elementary.InsideAt

def Expr.TraceableAt (x : ℝ) (tree : Expr (Exact ℝ)) : Prop :=
  tree.Throughout (traceability.MetAt x)

theorem none_lenient : (Conditions.none : Conditions ℝ).Lenient where
  positive _ _ _ := trivial
  whole _ := trivial
  smooth _ := trivial

/-- The tree and its derivative denote numbers at the point, and the run over dual numbers returns
both, the second times the seed. A tree without the variable has slope zero. -/
structure Traced (x seed : ℝ) (tree : Expr (Exact ℝ)) (a d : ℝ) : Prop where
  denotes : Denotes Conditions.none x tree a
  slope : Denotes Conditions.none x tree.derivative d
  rests : tree.isConstant = true → d = 0
  dual : tree.value Dual.constant (Dual.ofKnown x seed) = Dual.ofKnown a (seed * d)

namespace Traced

variable {x seed : ℝ} {tree left right : Expr (Exact ℝ)} {a b d e value : ℝ}

theorem number (value : ℝ) : Traced x seed (.number (.known value)) value 0 where
  denotes := .number value
  slope := .zero
  rests _ := rfl
  dual := by
    change Dual.mk (Exact.known value) Scalar.zero = _
    rw [Exact.zero_eq, mul_zero]
    rfl

theorem var : Traced x seed .var x 1 where
  denotes := .var
  slope := .one
  rests constant := by cases constant
  dual := by
    rw [mul_one]
    rfl

theorem neg (inner : Traced x seed tree a d) : Traced x seed (.neg tree) (-a) (-d) where
  denotes := .neg inner.denotes
  slope := inner.slope.negated
  rests constant := by rw [inner.rests constant, neg_zero]
  dual := by
    rw [Expr.value, inner.dual, Dual.neg_ofKnown, mul_neg]

theorem binary {operator : Operator} (first : Traced x seed left a d)
    (second : Traced x seed right b e)
    (defined : operator.apply (Exact.known a) (Exact.known b) = .known value)
    (met : traceability.operation operator a right b) :
    Traced x seed (.binary operator left right) value (operator.realSlope a d b e) where
  denotes := by
    apply Denotes.binary first.denotes second.denotes defined
    cases operator <;> trivial
  slope := by
    apply none_lenient.operatorRule first.denotes first.slope second.denotes second.slope
      first.rests second.rests defined
    intro power
    subst power
    rcases met with positive | ⟨constant, below, lower⟩
    · exact .inl positive
    · exact .inr (.inr ⟨constant, eq_of_pow_known lower ▸ lower, trivial⟩)
  rests constant := by
    rw [Expr.isConstant, Bool.and_eq_true_iff] at constant
    rw [first.rests constant.1, second.rests constant.2]
    exact operator.realSlope_zero a b
  dual := by
    rw [Expr.value, first.dual, second.dual]
    apply Dual.operation_ofKnown defined
    intro power
    subst power
    rcases met with positive | ⟨constant, below, lower⟩
    · exact .inl positive
    · exact .inr ⟨second.rests constant, eq_of_pow_known lower ▸ lower⟩

theorem call {function : Elementary} (inner : Traced x seed tree a d)
    (inside : function.InsideAt a) :
    Traced x seed (.call function [tree]) (function.realValue a) (function.realSlope a * d) where
  denotes := .call inner.denotes (Elementary.applyOne_known inside) trivial
  slope := none_lenient.callRule inner.denotes inner.slope inside
  rests constant := by
    rw [Expr.isConstant_call_singleton] at constant
    rw [inner.rests constant, mul_zero]
  dual := by
    rw [Expr.value, Expr.valueAll, Expr.valueAll, inner.dual, Elementary.apply_singleton,
      Dual.applyOne_ofKnown function inside, mul_left_comm]

theorem logarithm (first : Traced x seed left a d) (second : Traced x seed right b e)
    (argument : 0 < a) (base : 0 < b) (notOne : b ≠ 1) :
    Traced x seed (.call .log [left, right]) (Real.log a / Real.log b)
      (logarithmSlopeToBase a d b e) where
  denotes :=
    .logarithm first.denotes second.denotes (Exact.ln_div_ln argument base notOne) trivial
  slope := none_lenient.baseRule first.denotes first.slope second.denotes second.slope
    first.rests second.rests argument base notOne
  rests constant := by
    rw [Expr.isConstant_call_pair, Bool.and_eq_true_iff] at constant
    rw [first.rests constant.1, second.rests constant.2]
    exact logarithmSlopeToBase_zero a b
  dual := by
    rw [Expr.value, Expr.valueAll, Expr.valueAll, Expr.valueAll, first.dual, second.dual]
    exact Dual.ln_div_ln_ofKnown argument base notOne seed d e

end Traced

theorem Denotes.traced {x a : ℝ} {tree : Expr (Exact ℝ)} (denotes : Denotes traceability x tree a)
    (seed : ℝ) : ∃ d, Traced x seed tree a d := by
  induction denotes with
  | number value => exact ⟨_, .number value⟩
  | var => exact ⟨_, .var⟩
  | neg inner ih =>
    obtain ⟨d, here⟩ := ih
    exact ⟨_, here.neg⟩
  | binary first second defined met ihFirst ihSecond =>
    obtain ⟨d, left⟩ := ihFirst
    obtain ⟨e, right⟩ := ihSecond
    exact ⟨_, left.binary right defined met⟩
  | call inner defined met ih =>
    obtain ⟨d, here⟩ := ih
    have inside := Elementary.allows_singleton_iff.mp met
    rw [Elementary.applyOne_known inside] at defined
    exact ⟨_, Exact.known_injective defined ▸ here.call inside⟩
  | logarithm first second defined met ihFirst ihSecond =>
    obtain ⟨d, left⟩ := ihFirst
    obtain ⟨e, right⟩ := ihSecond
    obtain ⟨argument, base, notOne⟩ := met
    rw [Exact.ln_div_ln argument base notOne] at defined
    exact ⟨_, Exact.known_injective defined ▸ left.logarithm right argument base notOne⟩

/-- Forward mode and symbolic differentiation agree. Where a tree can be traced, it has a value and
its derivative has one; the program run over dual numbers from any seed returns the first together
with the second times the seed, and the forward derivative is the second. The tree may itself be a
derivative. -/
theorem forward_mode_agrees {x : ℝ} {tree : Expr (Exact ℝ)} (traceable : tree.TraceableAt x) :
    ∃ value slope, tree.exactAt x = .known value ∧ tree.derivative.exactAt x = .known slope ∧
      (∀ (seed : ℝ) (workspace : Workspace (Dual (Exact ℝ))),
        tree.program.execute Dual.constant ⟨.known x, .known seed⟩ workspace =
          (⟨.known value, .known (seed * slope)⟩, Workspace.empty)) ∧
      (Evaluator.ofExpr tree).forwardDerivative (.known x) =
        ((Evaluator.ofExpr tree.derivative).evaluate (.known x)).1 := by
  obtain ⟨value, denotes⟩ := Denotes.of_throughout traceable
  obtain ⟨slope, unit⟩ := denotes.traced 1
  have run (seed : ℝ) (workspace : Workspace (Dual (Exact ℝ))) :
      tree.program.execute Dual.constant ⟨.known x, .known seed⟩ workspace =
        (⟨.known value, .known (seed * slope)⟩, Workspace.empty) := by
    obtain ⟨other, trace⟩ := denotes.traced seed
    have same : other = slope := trace.slope.value_unique unit.slope
    rw [Expr.execute_program]
    exact same ▸ congrArg (·, Workspace.empty) trace.dual
  refine ⟨value, slope, denotes.exactAt_eq, unit.slope.exactAt_eq, run, ?_⟩
  have seedOne : Dual.seed (Exact.known x) = ⟨.known x, .known 1⟩ := by
    rw [Dual.seed, Exact.one_eq]
  have forward : (Evaluator.ofExpr tree).forwardDerivative (.known x) = .known slope := by
    change (tree.program.execute Dual.constant (Dual.seed (.known x)) Workspace.empty).1.slope = _
    rw [seedOne, run 1, one_mul]
  have symbolic : ((Evaluator.ofExpr tree.derivative).evaluate (.known x)).1 = .known slope := by
    change (tree.derivative.program.execute id (.known x) Workspace.empty).1 = _
    rw [Expr.execute_program]
    exact unit.slope.exactAt_eq
  rw [forward, symbolic]

/-- The tree of `x ^ -2`, with the negation as an operation of the exponent. -/
noncomputable def inverseSquareNegated : Expr (Exact ℝ) :=
  .binary .pow .var (.neg (.number (.known ((2 : ℤ) : ℝ))))

/-- The exponent is no literal, and the base is negative. -/
theorem forward_mode_inverseSquareNegated :
    inverseSquareNegated.TraceableAt (-1) ∧
      (Evaluator.ofExpr inverseSquareNegated).forwardDerivative (.known (-1)) =
        ((Evaluator.ofExpr inverseSquareNegated.derivative).evaluate (.known (-1))).1 := by
  have nonzero : (-1 : ℝ) ≠ 0 := by norm_num
  have defined : ExactMeaning.pow (-1 : ℝ) (-((2 : ℤ) : ℝ)) = .known ((-1) ^ ((-2 : ℤ) : ℝ)) := by
    rw [← Int.cast_neg]
    exact pow_intCast (.inl nonzero)
  have below : ExactMeaning.pow (-1 : ℝ) (-((2 : ℤ) : ℝ) - 1) = .known ((-1) ^ ((-3 : ℤ) : ℝ)) := by
    have whole : -((2 : ℤ) : ℝ) - 1 = ((-3 : ℤ) : ℝ) := by norm_num
    rw [whole]
    exact pow_intCast (.inl nonzero)
  have denotes : Denotes traceability (-1) inverseSquareNegated _ :=
    .binary .var (.neg (.number _)) defined (.inr ⟨rfl, _, below⟩)
  obtain ⟨_, _, _, _, _, agree⟩ := forward_mode_agrees denotes.throughout
  exact ⟨denotes.throughout, agree⟩

end Tangency
