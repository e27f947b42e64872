/-
Whole neighbours of a double, computed on its significand, so every result is
exact and keeps the sign of its argument, also when it is zero. The remainder of
a division has a whole quotient cut toward zero and is exact for all exponents.
An infinity and NaN are their own whole parts.
-/

import Tangency.Numeric.Binary64

namespace Tangency.Binary64

/-- Replaces a magnitude by a whole one. The rule sees the sign, the whole part, the rest and the
unit that the rest is counted in. A double without places behind the point stays. -/
def toWhole (rule : Bool → Nat → Nat → Nat → Nat) (x : Binary64) : Binary64 :=
  if 0 ≤ power x then x
  else
    let one := twoTo (-power x).toNat
    let magnitude := rule (isNegative x) (significand x / one) (significand x % one) one
    ofRatio (isNegative x) magnitude 1

def truncate (x : Binary64) : Binary64 := toWhole (fun _ whole _ _ => whole) x

def floor (x : Binary64) : Binary64 :=
  toWhole (fun negative whole rest _ => if negative ∧ rest ≠ 0 then whole + 1 else whole) x

def ceiling (x : Binary64) : Binary64 :=
  toWhole (fun negative whole rest _ => if ¬negative ∧ rest ≠ 0 then whole + 1 else whole) x

/-- The nearest whole number; a half goes away from zero. -/
def roundAway (x : Binary64) : Binary64 :=
  toWhole (fun _ whole rest one => if one ≤ 2 * rest then whole + 1 else whole) x

def fractional (x : Binary64) : Binary64 := x - truncate x

/-- One with the sign of the argument, also for a zero. NaN loses its sign. -/
def signUnit (x : Binary64) : Binary64 := if x.isNaN then notANumber else one.withSignOf x

/-- The remainder of division with the quotient cut toward zero; it has the sign of the dividend,
also when it is zero. Undefined for an infinite dividend and for the divisor zero. -/
def remainder (x y : Binary64) : Binary64 :=
  if x.isNaN ∨ y.isNaN ∨ x.isInfinite ∨ significand y = 0 then undefinedAt [x, y]
  else if y.isInfinite then x
  else
    let unit := min (power x) (power y)
    let dividend := significand x * twoTo (power x - unit).toNat
    let divisor := significand y * twoTo (power y - unit).toNat
    ofRatio (isNegative x) (dividend % divisor * twoTo unit.toNat) (twoTo (-unit).toNat)

def toInt? (x : Binary64) : Option Int :=
  if exponentField x = 2047 then none
  else
    let magnitude := magnitudeNumerator x / magnitudeDenominator x
    some (if isNegative x then -(magnitude : Int) else magnitude)

def toInt64? (x : Binary64) : Option Int :=
  (toInt? x).filter fun whole => decide (-(twoTo 63 : Int) ≤ whole ∧ whole < twoTo 63)

/-- The whole part as an unsigned word, where it fits. A fraction between `-1` and `0` is cut to
zero and fits. -/
def toUInt64? (x : Binary64) : Option Int :=
  (toInt? x).filter fun whole => decide (0 ≤ whole ∧ whole < twoTo 64)

end Tangency.Binary64
