/-
Points of three curves over one grid: the function itself, its tangent line and
its tangent parabola. Where the function has no finite value its series has a gap,
an undefined ordinate; the other two are taken as they are computed.
-/

import Tangency.Evaluator
import Tangency.Jet.Basic
import Tangency.Settings

namespace Tangency

structure SamplePoint (α : Type u) where
  x : α
  y : α

abbrev Series (α : Type u) := List (SamplePoint α)

namespace Series

variable {α : Type u}

def xs (series : Series α) : List α := series.map SamplePoint.x

def ys (series : Series α) : List α := series.map SamplePoint.y

def ofLists (xs ys : List α) : Series α := List.zipWith SamplePoint.mk xs ys

def gapCount [Scalar α] (series : Series α) : Nat :=
  series.countP fun point => Scalar.isUndefined point.y

end Series

structure Samples (α : Type u) where
  function : Series α
  line : Series α
  parabola : Series α

namespace Samples

variable {α : Type u} [Scalar α]

/-- A value, or a gap in place of one that cannot be reported. -/
def orGap (value : α) : α := if isUsable value then value else Scalar.undefined

/-- The three series around the anchor of a jet, and the evaluator after its runs. -/
def around (evaluator : Evaluator α) (jet : Jet α) (settings : GridSettings α) :
    Samples α × Evaluator α :=
  let xs := settings.points jet.anchor
  let (values, used) := evaluator.evaluateAll xs
  ({ function := Series.ofLists xs (values.map orGap)
     line := xs.map fun x => ⟨x, jet.line x⟩
     parabola := xs.map fun x => ⟨x, jet.parabola x⟩ },
    used)

/-- Whether the series share their abscissae, by the comparison of the scalar type. -/
def shareAbscissae (samples : Samples α) : Bool :=
  let agree (first second : List α) : Bool :=
    first.length == second.length &&
      (List.zipWith Scalar.isEqual first second).all id
  agree samples.function.xs samples.line.xs && agree samples.function.xs samples.parabola.xs

end Samples

end Tangency
