/-
Dual numbers over doubles: particular numbers, and what can be asked of one. All
questions but two look at the value only; being zero and being equal look at the
slope as well.
-/

import Tangency.Dual.Functions
import Tangency.Numeric.Radix

namespace Tangency.Dual

def undefined : Dual Binary64 := constant Binary64.notANumber

def infinity : Dual Binary64 := constant Binary64.infinity

def negativeInfinity : Dual Binary64 := constant Binary64.negativeInfinity

def negativeZero : Dual Binary64 := -constant .zero

def least : Dual Binary64 := constant Binary64.least

def greatest : Dual Binary64 := constant Binary64.greatest

def leastNormal : Dual Binary64 := constant Binary64.leastNormal

def ofInt (n : Int) : Dual Binary64 := constant (.ofInt n)

def ofRadix? (radix : Nat) (written : List Char) : Option (Dual Binary64) :=
  (Radix.ofText? radix written).map constant

def isZero (a : Dual Binary64) : Bool := a.value.isEqual .zero && a.slope.isEqual .zero

def isNaN (a : Dual Binary64) : Bool := a.value.isNaN

def isInfinite (a : Dual Binary64) : Bool := a.value.isInfinite

def isFinite (a : Dual Binary64) : Bool := a.value.isFinite

def isNormal (a : Dual Binary64) : Bool := a.value.category == .normal

def isSignPositive (a : Dual Binary64) : Bool := !a.value.isNegative

def isSignNegative (a : Dual Binary64) : Bool := a.value.isNegative

def category (a : Dual Binary64) : Binary64.Category := a.value.category

def toInt64? (a : Dual Binary64) : Option Int := a.value.toInt64?

def toUInt64? (a : Dual Binary64) : Option Int := a.value.toUInt64?

def decode (a : Dual Binary64) : Nat × Int × Int := a.value.decode

/-- How two values compare; not at all if one is undefined. -/
def compare? (a b : Dual Binary64) : Option Ordering :=
  if a.value.isLess b.value then some .lt
  else if b.value.isLess a.value then some .gt
  else if a.value.isEqual b.value then some .eq
  else none

def isEqual (a b : Dual Binary64) : Bool := Scalar.isEqual a b

end Tangency.Dual
