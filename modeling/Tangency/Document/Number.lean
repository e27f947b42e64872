/-
Numbers as structured data writes them. One without a point and an exponent is
whole if a machine word holds it, an unsigned word or, behind a minus, a signed
one; minus zero is not whole. Every other number is a double. It is reached in two
roundings: the leading digits that fit a word become a double, and that is scaled
by a power of ten. So the last digit may differ from that of the nearest double.
-/

import Tangency.Document
import Tangency.Numeric.Decimal

namespace Tangency.Document

/-- Appends decimal digits to a number as long as a machine word holds it, and gives back the
digits from the first that does not fit. -/
def appendDigits (value : Nat) : List Char → Nat × List Char
  | [] => (value, [])
  | digit :: rest =>
    let longer := 10 * value + (digit.toNat - '0'.toNat)
    if twoTo 64 ≤ longer then (value, digit :: rest) else appendDigits longer rest

def powerOfTen (exponent : Nat) : Binary64 := .ofNat (tenTo exponent)

/-- A double scaled by a power of ten. Downwards the scale may take several steps, since no power
of ten past `10 ^ 308` is finite; upwards a result past all finite doubles is refused. -/
def scaled? (value : Binary64) (exponent : Int) : Option Binary64 :=
  if value.isEqual .zero then some value
  else if 308 < exponent then none
  else if 0 ≤ exponent then some (value * powerOfTen exponent.toNat) |>.filter Binary64.isFinite
  else if -308 ≤ exponent then some (value / powerOfTen (-exponent).toNat)
  else scaled? (value / powerOfTen 308) (exponent + 308)
termination_by (-exponent).toNat
decreasing_by omega

def ofNumber? (written : List Char) : Option (Document Binary64) :=
  let (negative, unsigned) := match written with
    | '-' :: more => (true, more)
    | _ => (false, written)
  let (fraction, behind) := Decimal.splitFraction (unsigned.dropWhile Char.isDigit)
  let (mark, exponent, rest) := Decimal.splitExponent behind
  let (leading, dropped) := appendDigits 0 (unsigned.takeWhile Char.isDigit)
  let (significand, ignored) := appendDigits leading (fraction.drop 1)
  let isWord := dropped.isEmpty && (!negative || decide (0 < leading ∧ leading ≤ twoTo 63))
  if (unsigned.takeWhile Char.isDigit).isEmpty || fraction == ['.'] || !rest.isEmpty then none
  else if fraction.isEmpty && mark.isEmpty && isWord then
    some (.whole (if negative then -(leading : Int) else leading))
  else
    let places : Int := (fraction.drop 1).length - ignored.length
    (scaled? (.ofNat significand) (dropped.length - places + exponent)).map fun value =>
      .real (if negative then -value else value)

end Tangency.Document
