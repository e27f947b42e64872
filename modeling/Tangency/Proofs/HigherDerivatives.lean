/-
Repeated differentiation of regular trees.

One round of differentiation takes a regular tree to a regular tree that denotes the
derivative, at the point and around it.  Any number of rounds then gives the iterated
derivative, by induction on that number for all trees at once.
-/

import Tangency.Proofs.RegularTrees

namespace Tangency

open Filter Topology

theorem Denotes.differentiated {x value : ℝ} {tree : Expr (Exact ℝ)}
    (denotes : Denotes regularity x tree value) :
    ∃ f d, f x = value ∧ Differentiated x tree f d := by
  induction denotes with
  | number value => exact ⟨_, _, rfl, .number value⟩
  | var => exact ⟨_, _, rfl, .var⟩
  | neg inner ih =>
    obtain ⟨f, d, rfl, here⟩ := ih
    exact ⟨_, _, rfl, here.neg⟩
  | binary first second defined met ihFirst ihSecond =>
    obtain ⟨f, d, rfl, left⟩ := ihFirst
    obtain ⟨g, e, rfl, right⟩ := ihSecond
    exact ⟨_, _, (Operator.eq_realValue defined).symm, left.binary right defined met⟩
  | call inner defined met ih =>
    obtain ⟨f, d, rfl, here⟩ := ih
    have smooth := Elementary.allows_singleton_iff.mp met
    rw [Elementary.applyOne_known smooth.1] at defined
    exact ⟨_, _, Exact.known_injective defined, here.call smooth⟩
  | logarithm first second defined met ihFirst ihSecond =>
    obtain ⟨f, d, rfl, left⟩ := ihFirst
    obtain ⟨g, e, rfl, right⟩ := ihSecond
    obtain ⟨argument, base, notOne⟩ := met
    rw [Exact.ln_div_ln argument base notOne] at defined
    exact ⟨_, _, Exact.known_injective defined, left.logarithm right argument base notOne⟩

namespace Expr.RegularAt

variable {x : ℝ} {tree : Expr (Exact ℝ)}

theorem differentiated (regular : tree.RegularAt x) : ∃ f d, Differentiated x tree f d := by
  obtain ⟨value, denotes⟩ := Denotes.of_throughout regular
  obtain ⟨f, d, _, here⟩ := denotes.differentiated
  exact ⟨f, d, here⟩

theorem exactAt_eq (regular : tree.RegularAt x) :
    tree.exactAt x = .known (tree.realFunction x) := by
  obtain ⟨value, denotes⟩ := Denotes.of_throughout regular
  rw [denotes.realFunction_eq]
  exact denotes.exactAt_eq

theorem derivative_regularAt (regular : tree.RegularAt x) : tree.derivative.RegularAt x := by
  obtain ⟨f, d, here⟩ := regular.differentiated
  exact here.slope.throughout

theorem eventually (regular : tree.RegularAt x) : ∀ᶠ y in 𝓝 x, tree.RegularAt y := by
  obtain ⟨f, d, here⟩ := regular.differentiated
  exact here.nearby.mono fun _ denotes => denotes.throughout

theorem hasDerivAt (regular : tree.RegularAt x) :
    HasDerivAt tree.realFunction (tree.derivative.realFunction x) x := by
  obtain ⟨f, d, here⟩ := regular.differentiated
  have same : tree.realFunction =ᶠ[𝓝 x] f :=
    here.nearby.mono fun _ denotes => denotes.realFunction_eq
  rw [here.slope.realFunction_eq]
  exact here.hasDerivAt.congr_of_eventuallyEq same

end Expr.RegularAt

namespace Expr

theorem isOpen_regularAt (tree : Expr (Exact ℝ)) : IsOpen {y | tree.RegularAt y} :=
  isOpen_iff_mem_nhds.mpr fun _ regular => regular.eventually

theorem RegularAt.iterate {x : ℝ} {tree : Expr (Exact ℝ)} (regular : tree.RegularAt x) (order : ℕ) :
    (derivative^[order] tree).RegularAt x := by
  induction order generalizing tree with
  | zero => exact regular
  | succ order ih => exact ih regular.derivative_regularAt

theorem iteratedDeriv_realFunction {x : ℝ} {tree : Expr (Exact ℝ)} (regular : tree.RegularAt x)
    (order : ℕ) :
    iteratedDeriv order tree.realFunction x = (derivative^[order] tree).realFunction x := by
  induction order generalizing tree with
  | zero => rw [iteratedDeriv_zero, Function.iterate_zero_apply]
  | succ order ih =>
    -- The hypothesis is about another tree, so the slope has to agree around the point.
    have same : deriv tree.realFunction =ᶠ[𝓝 x] tree.derivative.realFunction :=
      regular.eventually.mono fun _ nearby => nearby.hasDerivAt.deriv
    rw [iteratedDeriv_succ', (same.iteratedDeriv order).self_of_nhds,
      ih regular.derivative_regularAt, Function.iterate_succ_apply]

theorem contDiffOn_realFunction (tree : Expr (Exact ℝ)) (order : ℕ) :
    ContDiffOn ℝ order tree.realFunction {y | tree.RegularAt y} := by
  induction order generalizing tree with
  | zero =>
    apply contDiffOn_zero.mpr
    intro y regular
    exact regular.hasDerivAt.continuousAt.continuousWithinAt
  | succ order ih =>
    have differentiable : DifferentiableOn ℝ tree.realFunction {y | tree.RegularAt y} :=
      fun _ regular => regular.hasDerivAt.differentiableAt.differentiableWithinAt
    have below : ContDiffOn ℝ order (deriv tree.realFunction) {y | tree.RegularAt y} := by
      apply ((ih tree.derivative).mono fun _ regular => regular.derivative_regularAt).congr
      exact fun _ regular => regular.hasDerivAt.deriv
    rw [Nat.cast_succ]
    apply (contDiffOn_succ_iff_deriv_of_isOpen tree.isOpen_regularAt).mpr
    exact ⟨differentiable, fun analytic => absurd analytic (by simp), below⟩

end Expr

/-- Differentiation is correct to every order. Where a tree is regular, the tree after any number of
rounds of differentiation is regular again, and its value is the derivative of that order of the
function that the tree denotes; around the point the tree denotes that function, which has
continuous derivatives of every order there. -/
theorem derivative_iterate_correct {x : ℝ} {tree : Expr (Exact ℝ)} (regular : tree.RegularAt x)
    (order : ℕ) :
    (Expr.derivative^[order] tree).RegularAt x ∧
      (Expr.derivative^[order] tree).exactAt x =
        .known (iteratedDeriv order tree.realFunction x) ∧
      ContDiffAt ℝ order tree.realFunction x ∧
      ∀ᶠ y in 𝓝 x, tree.exactAt y = .known (tree.realFunction y) := by
  have again := regular.iterate order
  refine ⟨again, ?_, ?_, ?_⟩
  · rw [Expr.iteratedDeriv_realFunction regular]
    exact again.exactAt_eq
  · exact (tree.contDiffOn_realFunction order).contDiffAt regular.eventually
  · exact regular.eventually.mono fun _ nearby => nearby.exactAt_eq

/-- The tree of `x ^ -2`, with the exponent as a literal. -/
noncomputable def inverseSquare : Expr (Exact ℝ) :=
  .binary .pow .var (.number (.known ((-2 : ℤ) : ℝ)))

/-- At a negative point `x ^ -2` has only the rule of whole exponents. -/
theorem derivative_iterate_inverseSquare :
    inverseSquare.RegularAt (-1) ∧
      (Expr.derivative^[2] inverseSquare).RegularAt (-1) ∧
      (Expr.derivative^[2] inverseSquare).exactAt (-1) =
        .known (iteratedDeriv 2 inverseSquare.realFunction (-1)) := by
  have nonzero : (-1 : ℝ) ≠ 0 := by norm_num
  have denotes : Denotes regularity (-1) inverseSquare _ :=
    .binary .var (.number _) (pow_intCast (.inl nonzero)) (.inr ⟨-2, rfl, .inl nonzero⟩)
  obtain ⟨again, value, _⟩ := derivative_iterate_correct denotes.throughout 2
  exact ⟨denotes.throughout, again, value⟩

end Tangency
