/-
The local shape of a function, told from its slope and curvature. A size below
the tolerance counts as flat; what is neither flat nor positive counts as
negative.
-/

import Tangency.Scalar

namespace Tangency

inductive Trend where
  | increasing
  | decreasing
  | stationary
  deriving DecidableEq, Repr

inductive Concavity where
  | up
  | down
  | inflection
  deriving DecidableEq, Repr

structure Behavior where
  trend : Trend
  concavity : Concavity
  deriving DecidableEq, Repr

def Trend.label : Trend → String
  | .increasing => "increasing"
  | .decreasing => "decreasing"
  | .stationary => "stationary"

def Concavity.label : Concavity → String
  | .up => "up"
  | .down => "down"
  | .inflection => "inflection"

section Classify

variable {α : Type u} [Scalar α]

def Trend.ofSlope (tolerance slope : α) : Trend :=
  if Scalar.isLess (Scalar.abs slope) tolerance then .stationary
  else if Scalar.isLess Scalar.zero slope then .increasing
  else .decreasing

def Concavity.ofCurvature (tolerance curvature : α) : Concavity :=
  if Scalar.isLess (Scalar.abs curvature) tolerance then .inflection
  else if Scalar.isLess Scalar.zero curvature then .up
  else .down

def Behavior.classify (tolerance slope curvature : α) : Behavior :=
  ⟨.ofSlope tolerance slope, .ofCurvature tolerance curvature⟩

end Classify

end Tangency
