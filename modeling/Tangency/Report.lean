/-
A whole calculation, from the text of a formula to everything that is shown of
it. The settings are checked first, then the anchor, then the text, the sizes of
the derivatives and the three values at the anchor; the first failure is the
outcome, and there are no partial reports.
-/

import Tangency.Behavior
import Tangency.Curve
import Tangency.Expr.Written
import Tangency.Jet.Formula

namespace Tangency

structure Report (α : Type) where
  expression : String
  slope : String
  curvature : String
  jet : Jet α
  lineFormula : String
  parabolaFormula : String
  behavior : Behavior
  samples : Samples α

namespace Report

def ofCurve {α : Type} [Scalar α] [Numeral α] (curve : Curve α) (jet : Jet α)
    (settings : Settings α) : Report α where
  expression := curve.function.tree.text
  slope := curve.slope.tree.text
  curvature := curve.curvature.tree.text
  jet := jet
  lineFormula := jet.lineFormula
  parabolaFormula := jet.parabolaFormula
  behavior := .classify settings.flatTolerance jet.slope jet.curvature
  samples := (curve.samples jet settings.grid).1

variable {α : Type} [Scalar α] [Numeral α]

def calculate (source : String) (anchor : α) (settings : Settings α) :
    Except (Failure α) (Report α) := do
  settings.check
  if Scalar.isFinite anchor then
    let curve ← Curve.ofText? source
    match curve.jetAt anchor with
    | (.error failure, _) => .error failure
    | (.ok jet, used) => return ofCurve used jet settings
  else .error (.anchorNotFinite anchor)

end Report

end Tangency
