/-
Text of a double. The default text has the fewest decimal digits that read back
to the same double, and of those the nearest; an exact tie takes the larger.
Digits are written positionally whatever the size. Fixed-place text rounds the
exact binary value. Both keep the minus of a negative double, `-0` included, but
NaN is written without a sign. Reading gives NaN the sign in front of it.
-/

import Tangency.Numeric.Decimal

namespace Tangency.Binary64

/-- The exponent `e` with `10 ^ e ≤ numerator / denominator < 10 ^ (e + 1)`, both parts positive.
The difference of the decimal lengths is that exponent or one more. -/
def decimalOrder (numerator denominator : Nat) : Int :=
  let guess : Int :=
    ((Nat.toDigits 10 numerator).length : Int) - (Nat.toDigits 10 denominator).length
  if numerator * tenTo (-guess).toNat < denominator * tenTo guess.toNat then guess - 1 else guess

/-- The neighbours of a quotient among the multiples of a power of ten, tried against the bits
that a reader has to return: the only one that reads back, or of two the nearer. -/
def neighbourReadingBack (bits numerator denominator : Nat) (exponent : Int) : Option Decimal :=
  let scaledNumerator := numerator * tenTo (-exponent).toNat
  let scaledDenominator := denominator * tenTo exponent.toNat
  let below : Decimal := ⟨scaledNumerator / scaledDenominator, exponent⟩
  let above : Decimal := ⟨below.digits + 1, exponent⟩
  match below.nearestMagnitudeBits == bits, above.nearestMagnitudeBits == bits with
  | true, true =>
    if 2 * (scaledNumerator % scaledDenominator) < scaledDenominator then some below
    else some above
  | true, false => some below
  | false, true => some above
  | false, false => none

def exactDecimal (x : Binary64) : Decimal :=
  ⟨magnitudeNumerator x * fiveTo (-power x).toNat, -((-power x).toNat : Int)⟩

/-- The shortest decimal that reads back to the magnitude of a finite double. The first grid tried
is the one above the leading digit, where the only candidate is the next power of ten. Seventeen
digits are enough for every double; the exact value stands behind them. -/
def shortestDecimal (x : Binary64) : Decimal :=
  let numerator := magnitudeNumerator x
  let denominator := magnitudeDenominator x
  if numerator = 0 then ⟨0, 0⟩
  else
    let order := decimalOrder numerator denominator
    ((List.range 18).findSome? fun (lower : Nat) =>
      neighbourReadingBack x.magnitudeBits numerator denominator (order + 1 - lower)).getD (exactDecimal x)

def textWith (digitsOf : Binary64 → Decimal) (x : Binary64) : List Char :=
  match category x with
  | .notANumber => ['N', 'a', 'N']
  | .infinite => if isNegative x then ['-', 'i', 'n', 'f'] else ['i', 'n', 'f']
  | _ => if isNegative x then '-' :: (digitsOf x).positional else (digitsOf x).positional

def text (x : Binary64) : List Char := textWith shortestDecimal x

def textAtPlaces (places : Nat) (x : Binary64) : List Char :=
  textWith (fun y => Decimal.atPlaces places (magnitudeNumerator y) (magnitudeDenominator y)) x

/-- The words that stand for values without digits, in any case of letters. -/
def wordMagnitude? (word : List Char) : Option Binary64 :=
  let lower := word.map Char.toLower
  if lower = ['i', 'n', 'f'] ∨ lower = ['i', 'n', 'f', 'i', 'n', 'i', 't', 'y'] then some infinity
  else if lower = ['n', 'a', 'n'] then some notANumber
  else none

/-- A text read as one double: an optional sign before a word or a number form. -/
def ofText? (written : List Char) : Option Binary64 :=
  let (negative, unsigned) := match written with
    | '-' :: more => (true, more)
    | '+' :: more => (false, more)
    | _ => (false, written)
  match wordMagnitude? unsigned with
  | some magnitude => some (if negative then -magnitude else magnitude)
  | none =>
    let spelling := Decimal.split unsigned
    if spelling.rest.isEmpty then spelling.value?.map (Decimal.toBinary64 negative) else none

end Tangency.Binary64
