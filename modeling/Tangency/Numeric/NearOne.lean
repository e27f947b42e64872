/-
The exponential less one and the logarithm of one more, for doubles near zero
where the plain functions lose their digits. Both are summed as series in whole
numbers counted in units of `2 ^ (-256)` and rounded once at the end. The series
and their ends are chosen for the accuracy of a double; no bound is proved here.
The inverse hyperbolic tangent is taken from the logarithm.
-/

import Tangency.Numeric.WholePart

namespace Tangency.Binary64

def fixedPlaces : Nat := 256

def fixedOne : Int := (twoTo fixedPlaces : Nat)

def fixedProduct (a b : Int) : Int := a * b / fixedOne

def fixedQuotient (a b : Int) : Int := a * fixedOne / b

/-- A finite double in fixed point; exact for magnitudes of at least `2 ^ (-200)`. -/
def toFixed (x : Binary64) : Int :=
  let magnitude : Int := magnitudeNumerator x * twoTo fixedPlaces / magnitudeDenominator x
  if isNegative x then -magnitude else magnitude

def ofFixed (value : Int) : Binary64 := ofRatio (decide (value < 0)) value.natAbs (twoTo fixedPlaces)

/-- The exponential series at a small argument, by nested factors from the last term inwards. -/
def exponentialSeries (argument : Int) : Nat → Nat → Int
  | 0, _ => fixedOne
  | terms + 1, index =>
    fixedOne + fixedProduct argument (exponentialSeries argument terms (index + 1)) / index

def squareRepeatedly (value : Int) : Nat → Int
  | 0 => value
  | times + 1 => squareRepeatedly (fixedProduct value value) times

/-- The exponential: the argument is divided by `2 ^ 20`, the series summed, and the sum squared
as often. -/
def fixedExponential (argument : Int) : Int :=
  squareRepeatedly (exponentialSeries (argument / twoTo 20) 30 1) 20

/-- The odd series `t + t³/3 + t⁵/5 + …`, given the square of `t`. -/
def oddSeries (power square : Int) : Nat → Nat → Int
  | 0, _ => 0
  | terms + 1, index =>
    power / index + oddSeries (fixedProduct power square) square terms (index + 2)

def fixedLogarithmNearOne (value : Int) : Int :=
  let t := fixedQuotient (value - fixedOne) (value + fixedOne)
  2 * oddSeries t (fixedProduct t t) 100 1

/-- The logarithm of two, from `2 = (4/3)² · (9/8)`. -/
def fixedLogarithmOfTwo : Int :=
  2 * fixedLogarithmNearOne (4 * fixedOne / 3) + fixedLogarithmNearOne (9 * fixedOne / 8)

/-- The logarithm of a positive fixed-point number, scaled by a power of two to lie near one. -/
def fixedLogarithm (value : Int) : Int :=
  let order : Int := (value.natAbs.log2 : Int) - fixedPlaces
  let scaled := if 0 ≤ order then value / twoTo order.toNat else value * twoTo (-order).toNat
  if 4 * fixedOne < 3 * scaled then
    fixedLogarithmNearOne (scaled / 2) + (order + 1) * fixedLogarithmOfTwo
  else fixedLogarithmNearOne scaled + order * fixedLogarithmOfTwo

/-- Whether a magnitude is below `2 ^ (-60)`, where both functions round to their argument. -/
def isTiny (x : Binary64) : Bool := decide (exponentField x < 963)

def exponentialLessOne (x : Binary64) : Binary64 :=
  if x.isNaN ∨ isTiny x then x
  else if isLess (ofNat 710) x then infinity
  else if isLess x (ofInt (-60)) then -one
  else ofFixed (fixedExponential (toFixed x) - fixedOne)

def logarithmOfOneMore (x : Binary64) : Binary64 :=
  if x.isNaN ∨ isTiny x then x
  else if isLess x (-one) then undefinedAt [x]
  else if isEqual x (-one) then negativeInfinity
  else if x.isInfinite then x
  else ofFixed (fixedLogarithm (fixedOne + toFixed x))

/-- The inverse hyperbolic tangent: half the logarithm of one more than `2 x / (1 - x)`. Each step is
rounded by itself, so the last digit of a result is that of the composition. -/
def atanh (x : Binary64) : Binary64 :=
  one / ofNat 2 * logarithmOfOneMore (ofNat 2 * x / (one - x))

end Tangency.Binary64
