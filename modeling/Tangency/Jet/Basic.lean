/-
Second-order jets: the value, slope and curvature of a function at an anchor.
From them follow the tangent line and the tangent parabola, and the intercept of
the line with the vertical axis. A jet holds numbers only and does not know the
function; its entries may be anything.
-/

import Tangency.Scalar

namespace Tangency

structure Jet (α : Type u) where
  value : α
  slope : α
  curvature : α
  anchor : α

namespace Jet

variable {α : Type u} [Scalar α]

def line (jet : Jet α) (point : α) : α := jet.value + jet.slope * (point - jet.anchor)

def parabola (jet : Jet α) (point : α) : α :=
  jet.value + jet.slope * (point - jet.anchor) +
    jet.curvature / Scalar.two * (point - jet.anchor) * (point - jet.anchor)

/-- The height of the tangent line at zero. -/
def intercept (jet : Jet α) : α := jet.value - jet.slope * jet.anchor

end Jet

end Tangency
