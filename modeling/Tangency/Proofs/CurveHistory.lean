/-
A prepared curve answers alike after any history of uses.

The only part of a curve that a use changes is the workspace of an evaluator, and a run
clears it.  So a curve serves its tree before and after every use, also after one that
failed, and what it answers depends on the tree alone.  Uses come in any order and with any
arguments: points and anchors that are not finite, jets of other curves, grids that no check
has passed.
-/

import Tangency.Curve
import Tangency.Proofs.ProgramMeaning

namespace Tangency

variable {α : Type} [Scalar α]

namespace Expr

def ofOrder (tree : Expr α) : Order → Expr α
  | .value => tree
  | .slope => tree.derivative
  | .curvature => tree.derivative.derivative

def finiteValue (tree : Expr α) (order : Order) (anchor : α) : Except (Failure α) α :=
  if isUsable ((tree.ofOrder order).value id anchor) then
    .ok ((tree.ofOrder order).value id anchor)
  else .error (.notFinite order anchor)

def jetAt (tree : Expr α) (anchor : α) : Except (Failure α) (Jet α) :=
  if Scalar.isFinite anchor then do
    let value ← tree.finiteValue .value anchor
    let slope ← tree.finiteValue .slope anchor
    let curvature ← tree.finiteValue .curvature anchor
    return ⟨value, slope, curvature, anchor⟩
  else .error (.anchorNotFinite anchor)

def samples (tree : Expr α) (jet : Jet α) (settings : GridSettings α) : Samples α where
  function := Series.ofLists (settings.points jet.anchor)
    (((settings.points jet.anchor).map (tree.value id)).map Samples.orGap)
  line := (settings.points jet.anchor).map fun x => ⟨x, jet.line x⟩
  parabola := (settings.points jet.anchor).map fun x => ⟨x, jet.parabola x⟩

end Expr

structure Compiled.Serves (compiled : Compiled α) (tree : Expr α) : Prop where
  tree_eq : compiled.tree = tree
  evaluator : compiled.evaluator.Serves tree

omit [Scalar α] in
theorem Compiled.ofExpr_serves (tree : Expr α) : (Compiled.ofExpr tree).Serves tree := ⟨rfl, rfl⟩

theorem Evaluator.Serves.samples_step {evaluator : Evaluator α} {tree : Expr α}
    (serves : evaluator.Serves tree) (jet : Jet α) (settings : GridSettings α) :
    (Samples.around evaluator jet settings).1 = tree.samples jet settings ∧
      (Samples.around evaluator jet settings).2.Serves tree := by
  have run := serves.evaluateAll_run (settings.points jet.anchor)
  constructor
  · simp only [Samples.around, run.1]
    rfl
  · exact run.2

namespace Curve

/-- The curve of the tree, whatever earlier uses left in its workspaces. -/
def Serves (curve : Curve α) (tree : Expr α) : Prop :=
  ∀ order, (curve.compiled order).Serves (tree.ofOrder order)

variable {curve : Curve α} {tree : Expr α}

namespace Serves

theorem withEvaluator (serves : curve.Serves tree) {order : Order} {used : Evaluator α}
    (still : used.Serves (tree.ofOrder order)) : (curve.withEvaluator order used).Serves tree := by
  intro other
  cases order with
  | value =>
    cases other with
    | value => exact ⟨(serves .value).tree_eq, still⟩
    | slope => exact serves .slope
    | curvature => exact serves .curvature
  | slope =>
    cases other with
    | value => exact serves .value
    | slope => exact ⟨(serves .slope).tree_eq, still⟩
    | curvature => exact serves .curvature
  | curvature =>
    cases other with
    | value => exact serves .value
    | slope => exact serves .slope
    | curvature => exact ⟨(serves .curvature).tree_eq, still⟩

theorem evaluate_step (serves : curve.Serves tree) (order : Order) (point : α) :
    (curve.evaluate order point).1 = (tree.ofOrder order).value id point ∧
      (curve.evaluate order point).2.Serves tree := by
  have step := (serves order).evaluator.evaluate_step point
  exact ⟨step.1, serves.withEvaluator step.2⟩

theorem evaluateFinite_step (serves : curve.Serves tree) (order : Order) (anchor : α) :
    (curve.evaluateFinite order anchor).1 = tree.finiteValue order anchor ∧
      (curve.evaluateFinite order anchor).2.Serves tree := by
  have step := serves.evaluate_step order anchor
  constructor
  · simp only [evaluateFinite, step.1]
    rfl
  · exact step.2

/-- A jet is that of the tree, and each of the evaluations before the first failure leaves a curve
of the tree. -/
theorem jetAt_step (serves : curve.Serves tree) (anchor : α) :
    (curve.jetAt anchor).1 = tree.jetAt anchor ∧ (curve.jetAt anchor).2.Serves tree := by
  unfold Curve.jetAt Expr.jetAt
  by_cases finite : Scalar.isFinite anchor = true
  · rw [if_pos finite, if_pos finite]
    have valueStep := serves.evaluateFinite_step .value anchor
    cases valueEq : curve.evaluateFinite .value anchor with
    | mk valueOutcome afterValue =>
      rw [valueEq] at valueStep
      rw [← valueStep.1]
      cases valueOutcome with
      | error failure => exact ⟨rfl, valueStep.2⟩
      | ok value =>
        have slopeStep := valueStep.2.evaluateFinite_step .slope anchor
        cases slopeEq : afterValue.evaluateFinite .slope anchor with
        | mk slopeOutcome afterSlope =>
          rw [slopeEq] at slopeStep
          rw [← slopeStep.1]
          cases slopeOutcome with
          | error failure =>
            simp only [slopeEq]
            exact ⟨rfl, slopeStep.2⟩
          | ok slope =>
            have curvatureStep := slopeStep.2.evaluateFinite_step .curvature anchor
            cases curvatureEq : afterSlope.evaluateFinite .curvature anchor with
            | mk curvatureOutcome afterCurvature =>
              rw [curvatureEq] at curvatureStep
              rw [← curvatureStep.1]
              simp only [slopeEq, curvatureEq]
              cases curvatureOutcome with
              | error failure => exact ⟨rfl, curvatureStep.2⟩
              | ok curvature => exact ⟨rfl, curvatureStep.2⟩
  · rw [if_neg finite, if_neg finite]
    exact ⟨rfl, serves⟩

theorem samples_step (serves : curve.Serves tree) (jet : Jet α) (settings : GridSettings α) :
    (curve.samples jet settings).1 = tree.samples jet settings ∧
      (curve.samples jet settings).2.Serves tree := by
  have step := (serves .value).evaluator.samples_step jet settings
  exact ⟨step.1, serves.withEvaluator step.2⟩

end Serves

def fresh (tree : Expr α) : Curve α :=
  ⟨.ofExpr tree, .ofExpr tree.derivative, .ofExpr tree.derivative.derivative⟩

theorem fresh_serves (tree : Expr α) : (fresh tree).Serves tree := by
  intro order
  cases order with
  | value => exact Compiled.ofExpr_serves tree
  | slope => exact Compiled.ofExpr_serves tree.derivative
  | curvature => exact Compiled.ofExpr_serves tree.derivative.derivative

def tooLarge? (tree : Expr α) (order : Order) : Option (Failure α) :=
  if derivativeLimit < (tree.ofOrder order).size then
    some (.tooComplex order (tree.ofOrder order).size derivativeLimit)
  else none

theorem checkSize_eq (tree : Expr α) (order : Order) :
    checkSize order (tree.ofOrder order) =
      match tooLarge? tree order with
      | some failure => .error failure
      | none => .ok () := by
  unfold checkSize tooLarge?
  split <;> rfl

theorem ofExpr?_eq (tree : Expr α) :
    ofExpr? tree =
      match [Order.slope, .curvature].findSome? (tooLarge? tree) with
      | some failure => .error failure
      | none => .ok (fresh tree) := by
  have slopeCheck := checkSize_eq tree .slope
  have curvatureCheck := checkSize_eq tree .curvature
  simp only [Expr.ofOrder] at slopeCheck curvatureCheck
  simp only [ofExpr?, slopeCheck, curvatureCheck, bind, Except.bind, List.findSome?_cons,
    List.findSome?_nil]
  cases tooLarge? tree .slope with
  | some failure => rfl
  | none =>
    cases tooLarge? tree .curvature with
    | some failure => rfl
    | none => rfl

theorem ofText?_eq [Numeral α] (source : String) :
    ofText? (α := α) source =
      match Expr.ofText? (α := α) source with
      | .error failure => .error failure
      | .ok tree => ofExpr? tree := by
  unfold ofText?
  cases Expr.ofText? (α := α) source <;> rfl

theorem ofExpr?_serves (prepared : ofExpr? tree = .ok curve) : curve.Serves tree := by
  rw [ofExpr?_eq] at prepared
  split at prepared
  · cases prepared
  · cases prepared
    exact fresh_serves tree

theorem ofText?_serves [Numeral α] {source : String} (prepared : ofText? source = .ok curve) :
    ∃ tree, curve.Serves tree := by
  rw [ofText?_eq] at prepared
  cases treeEq : Expr.ofText? (α := α) source with
  | error failure => simp only [treeEq, reduceCtorEq] at prepared
  | ok tree =>
    rw [treeEq] at prepared
    exact ⟨tree, ofExpr?_serves prepared⟩

end Curve

/-! ### Histories -/

/-- A call on a curve. Nothing is asked of its arguments. -/
inductive Use (α : Type) where
  | evaluate (order : Order) (point : α)
  | forward (order : Order) (point : α)
  | jet (anchor : α)
  | sample (order : Order) (jet : Jet α) (settings : GridSettings α)

namespace Curve

variable {curve : Curve α} {tree : Expr α}

def after (curve : Curve α) : Use α → Curve α
  | .evaluate order point => (curve.evaluate order point).2
  | .forward _ _ => curve
  | .jet anchor => (curve.jetAt anchor).2
  | .sample order jet settings =>
    curve.withEvaluator order (Samples.around (curve.compiled order).evaluator jet settings).2

def afterAll (curve : Curve α) (uses : List (Use α)) : Curve α := uses.foldl after curve

theorem Serves.after_step (serves : curve.Serves tree) (use : Use α) :
    (curve.after use).Serves tree := by
  cases use with
  | evaluate order point => exact (serves.evaluate_step order point).2
  | forward order point => exact serves
  | jet anchor => exact (serves.jetAt_step anchor).2
  | sample order jet settings =>
    exact serves.withEvaluator ((serves order).evaluator.samples_step jet settings).2

theorem Serves.afterAll_run (uses : List (Use α)) {curve : Curve α} (serves : curve.Serves tree) :
    (curve.afterAll uses).Serves tree := by
  induction uses generalizing curve with
  | nil => exact serves
  | cons use later ih => exact ih (serves.after_step use)

end Curve

end Tangency
