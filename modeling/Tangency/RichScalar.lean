/-
Further real functions, for scalar types that have them: roundings to whole
numbers, the remainder of division, logarithms and exponentials to the base two
and near one, and the inverse hyperbolic functions. Formulas do not use them; the
arithmetic of dual numbers offers them. A power with a whole exponent needs only
multiplication and one division.
-/

import Tangency.Numeric.NearOne
import Tangency.Scalar

namespace Tangency

class RichScalar (α : Type u) extends Scalar α where
  logOfTwo : α
  floor : α → α
  ceiling : α → α
  /-- The nearest whole number, a half away from zero. -/
  round : α → α
  truncate : α → α
  fractional : α → α
  /-- One with the sign of the argument, also for a zero. -/
  signUnit : α → α
  /-- The remainder of division, its quotient cut toward zero. -/
  remainder : α → α → α
  exp2 : α → α
  log2 : α → α
  expLessOne : α → α
  lnOneMore : α → α
  asinh : α → α
  acosh : α → α
  atanh : α → α
  atan2 : α → α → α

instance : RichScalar Binary64 where
  logOfTwo := ⟨0x3FE62E42FEFA39EF⟩
  floor := Binary64.floor
  ceiling := Binary64.ceiling
  round := Binary64.roundAway
  truncate := Binary64.truncate
  fractional := Binary64.fractional
  signUnit := Binary64.signUnit
  remainder := Binary64.remainder
  exp2 := Binary64.unary Float.exp2
  log2 := Binary64.unary Float.log2
  expLessOne := Binary64.exponentialLessOne
  lnOneMore := Binary64.logarithmOfOneMore
  asinh := Binary64.unary Float.asinh
  acosh := Binary64.unary Float.acosh
  atanh := Binary64.atanh
  atan2 := Binary64.binary Float.atan2

namespace Scalar

variable {α : Type u} [Scalar α]

def whole (n : Int) : α := if n < 0 then -natural n.natAbs else natural n.natAbs

/-- Multiplies a result by a power, squaring the factor for each binary digit of the exponent. The
factor is not squared behind the last digit, where the square might overflow. -/
def powerOnto (result factor : α) (exponent : Nat) : α :=
  if exponent / 2 = 0 then
    if exponent % 2 = 1 then result * factor else result
  else
    powerOnto (if exponent % 2 = 1 then result * factor else result) (factor * factor)
      (exponent / 2)
termination_by exponent
decreasing_by omega

def wholePower (base : α) (exponent : Int) : α :=
  if exponent < 0 then one / powerOnto one base exponent.natAbs
  else powerOnto one base exponent.natAbs

end Scalar

end Tangency
