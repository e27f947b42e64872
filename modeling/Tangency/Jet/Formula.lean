/-
Texts of the tangent line and the tangent parabola. Coefficients have four
places; the anchor keeps its plain text. The line is written with its intercept,
whose sign stands apart from its size, and the parabola in powers of the distance
from the anchor, with the signs of its coefficients left as they are. A zero is
written without a minus; a negative number that rounds to zero keeps its own.
-/

import Tangency.Jet.Basic
import Tangency.Numeral

namespace Tangency

variable {α : Type u} [Scalar α] [Numeral α]

/-- A number, or plain zero in place of any zero. -/
def withoutSignedZero (value : α) : α :=
  if Scalar.isEqual value Scalar.zero then Scalar.zero else value

def coefficientText (value : α) : String :=
  String.ofList (Numeral.textAtPlaces 4 (withoutSignedZero value))

def anchorText (anchor : α) : String :=
  String.ofList (Numeral.text (withoutSignedZero anchor))

namespace Jet

/-- The sign between the slope and the intercept; an undefined intercept has a minus. -/
def interceptSign (jet : Jet α) : String :=
  if Scalar.isAtMost Scalar.zero jet.intercept then "+" else "-"

def lineFormula (jet : Jet α) : String :=
  "L(x) = " ++ coefficientText jet.slope ++ "x " ++ jet.interceptSign ++ " " ++
    coefficientText (Scalar.abs jet.intercept)

def parabolaFormula (jet : Jet α) : String :=
  "P(x) = " ++ coefficientText jet.value ++
    " + " ++ coefficientText jet.slope ++ "·(x-" ++ anchorText jet.anchor ++ ")" ++
    " + " ++ coefficientText (jet.curvature / Scalar.two) ++
      "·(x-" ++ anchorText jet.anchor ++ ")²"

end Jet

end Tangency
