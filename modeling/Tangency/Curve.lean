/-
A formula prepared for repeated use: the tree and its first two derivatives, each
with an evaluator. Both derivatives are limited in size, and the first is checked
before the second is built. Every use returns the curve with its evaluators as the
use left them, also when it fails.
-/

import Tangency.Expr.Derivative
import Tangency.Expr.Reading
import Tangency.Samples

namespace Tangency

structure Compiled (α : Type) where
  tree : Expr α
  evaluator : Evaluator α

def Compiled.ofExpr {α : Type} (tree : Expr α) : Compiled α := ⟨tree, Evaluator.ofExpr tree⟩

structure Curve (α : Type) where
  function : Compiled α
  slope : Compiled α
  curvature : Compiled α

namespace Curve

section Preparation

variable {α : Type}

def derivativeLimit : Nat := 4096

def checkSize (order : Order) (tree : Expr α) : Except (Failure α) Unit :=
  if derivativeLimit < tree.size then .error (.tooComplex order tree.size derivativeLimit)
  else .ok ()

def ofExpr? [Scalar α] (tree : Expr α) : Except (Failure α) (Curve α) := do
  let slope := tree.derivative
  checkSize .slope slope
  let curvature := slope.derivative
  checkSize .curvature curvature
  return ⟨.ofExpr tree, .ofExpr slope, .ofExpr curvature⟩

end Preparation

def ofText? {α : Type} [Scalar α] [Numeral α] (source : String) : Except (Failure α) (Curve α) := do
  ofExpr? (← Expr.ofText? source)

variable {α : Type}

def compiled (curve : Curve α) : Order → Compiled α
  | .value => curve.function
  | .slope => curve.slope
  | .curvature => curve.curvature

def withEvaluator (curve : Curve α) (order : Order) (evaluator : Evaluator α) : Curve α :=
  match order with
  | .value => { curve with function := { curve.function with evaluator := evaluator } }
  | .slope => { curve with slope := { curve.slope with evaluator := evaluator } }
  | .curvature => { curve with curvature := { curve.curvature with evaluator := evaluator } }

variable [Scalar α]

/-- The function or a derivative at a point, finite or not. -/
def evaluate (curve : Curve α) (order : Order) (point : α) : α × Curve α :=
  let (value, used) := (curve.compiled order).evaluator.evaluate point
  (value, curve.withEvaluator order used)

def forwardDerivative (curve : Curve α) (order : Order) (point : α) : α :=
  (curve.compiled order).evaluator.forwardDerivative point

def evaluateFinite (curve : Curve α) (order : Order) (anchor : α) :
    Except (Failure α) α × Curve α :=
  let (value, used) := curve.evaluate order anchor
  (if isUsable value then .ok value else .error (.notFinite order anchor), used)

/-- The jet at an anchor. The anchor has to be finite, and then value, slope and curvature; the
first that is not ends the attempt. -/
def jetAt (curve : Curve α) (anchor : α) : Except (Failure α) (Jet α) × Curve α :=
  if Scalar.isFinite anchor then
    match curve.evaluateFinite .value anchor with
    | (.error failure, used) => (.error failure, used)
    | (.ok value, used) =>
      match used.evaluateFinite .slope anchor with
      | (.error failure, used) => (.error failure, used)
      | (.ok slope, used) =>
        match used.evaluateFinite .curvature anchor with
        | (.error failure, used) => (.error failure, used)
        | (.ok curvature, used) => (.ok ⟨value, slope, curvature, anchor⟩, used)
  else (.error (.anchorNotFinite anchor), curve)

def samples (curve : Curve α) (jet : Jet α) (settings : GridSettings α) : Samples α × Curve α :=
  let (samples, used) := Samples.around curve.function.evaluator jet settings
  (samples, curve.withEvaluator .value used)

def samplesAt (curve : Curve α) (anchor : α) (settings : Settings α) :
    Except (Failure α) (Samples α) × Curve α :=
  match settings.check with
  | .error failure => (.error failure, curve)
  | .ok () =>
    match curve.jetAt anchor with
    | (.error failure, used) => (.error failure, used)
    | (.ok jet, used) =>
      let (samples, used) := used.samples jet settings.grid
      (.ok samples, used)

end Curve

inductive Request (α : Type) where
  | evaluate (order : Order) (point : α)
  | forward (order : Order) (point : α)
  | jet (anchor : α)
  | samples (anchor : α) (settings : Settings α)

inductive Answer (α : Type) where
  | number (value : α)
  | jet (jet : Jet α)
  | samples (samples : Samples α)
  | failure (failure : Failure α)

namespace Curve

variable {α : Type} [Scalar α]

def answer (curve : Curve α) : Request α → Answer α × Curve α
  | .evaluate order point =>
    let (value, used) := curve.evaluate order point
    (.number value, used)
  | .forward order point => (.number (curve.forwardDerivative order point), curve)
  | .jet anchor =>
    match curve.jetAt anchor with
    | (.ok jet, used) => (.jet jet, used)
    | (.error failure, used) => (.failure failure, used)
  | .samples anchor settings =>
    match curve.samplesAt anchor settings with
    | (.ok samples, used) => (.samples samples, used)
    | (.error failure, used) => (.failure failure, used)

/-- The answers to some requests, one after the other, and the curve after them. -/
def answerAll (curve : Curve α) : List (Request α) → List (Answer α) × Curve α
  | [] => ([], curve)
  | request :: requests =>
    let (first, used) := curve.answer request
    let (others, last) := used.answerAll requests
    (first :: others, last)

end Curve

end Tangency
