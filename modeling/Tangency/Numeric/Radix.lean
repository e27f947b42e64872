/-
Numbers written in a radix other than ten. Digits are accumulated in doubles, so
a long run of digits is not rounded once at its end: the reader gives up with an
infinity as soon as a digit cannot be taken off again. Only a minus may stand in
front, and only radix sixteen has an exponent, a power of two behind `p`. The words
for infinity and for an undefined number need no digits, so no radix refuses them.
-/

import Tangency.Numeric.Shortest

namespace Tangency.Radix

/-- Numeric value of a digit in any case of letters, if it is below the radix. -/
def digit? (radix : Nat) (c : Char) : Option Nat :=
  let value :=
    if c.isDigit then some (c.toNat - '0'.toNat)
    else if 'a' ≤ c ∧ c ≤ 'z' then some (c.toNat - 'a'.toNat + 10)
    else if 'A' ≤ c ∧ c ≤ 'Z' then some (c.toNat - 'A'.toNat + 10)
    else none
  value.filter fun v => decide (v < radix)

/-- What accumulating digits comes to: a number with the text behind its digits, or an overflow. -/
inductive Accumulated where
  | number (value : Binary64) (rest : List Char)
  | overflow

/-- Adds one digit away from zero, on the side of the sign. -/
def extend (negative : Bool) (value term : Binary64) : Binary64 :=
  if negative then value - term else value + term

/-- Whole digits. After the first non-zero digit each step has to move away from zero and has to
be undone by subtracting the digit and dividing by the radix. -/
def wholeDigits (radix : Nat) (negative : Bool) : Binary64 → List Char → Accumulated
  | value, [] => .number value []
  | value, c :: rest =>
    match digit? radix c with
    | none => .number value (c :: rest)
    | some digit =>
      let scale := Binary64.ofNat radix
      let term := Binary64.ofNat digit
      let next := extend negative (value * scale) term
      let undone := extend (!negative) next term / scale
      let stuck := if negative then value.isAtMost next else next.isAtMost value
      if !value.isEqual .zero && (stuck || !undone.isEqual value) then .overflow
      else wholeDigits radix negative next rest

def placeDigits (radix : Nat) (negative : Bool) : Binary64 → Binary64 → List Char → Accumulated
  | value, _, [] => .number value []
  | value, place, c :: rest =>
    match digit? radix c with
    | none => .number value (c :: rest)
    | some digit =>
      let smaller := place / .ofNat radix
      let next := extend negative value (.ofNat digit * smaller)
      if (if negative then value.isLess next else next.isLess value) then .overflow
      else placeDigits radix negative next smaller rest

def word? (text : List Char) : Option Nat :=
  let digits := match text with
    | '+' :: more => more
    | _ => text
  if digits.isEmpty || !digits.all Char.isDigit then none
  else some (Decimal.ofDigits digits) |>.filter fun value => decide (value < twoTo 64)

/-- The factor that an exponent stands for. The size of the exponent is taken modulo `2 ^ 32` as a
signed number, and a minus in front of it makes the factor its reciprocal. -/
def exponentFactor? (radix : Nat) (text : List Char) : Option Binary64 :=
  match text with
  | mark :: behind =>
    if (mark = 'p' ∨ mark = 'P') ∧ radix = 16 then
      let (negative, size) := match behind with
        | '-' :: more => (true, word? more)
        | '+' :: more => (false, word? more)
        | _ => (false, word? behind)
      size.map fun size =>
        let signed : Int := Int.bmod size (twoTo 32)
        let factor :=
          if 1024 ≤ signed then Binary64.infinity
          else if signed ≤ -1024 then .zero
          else Binary64.ofRatio false (twoTo signed.toNat) (twoTo (-signed).toNat)
        if negative then .one / factor else factor
    else none
  | [] => some .one

def form? (radix : Nat) (text : List Char) : Option Binary64 :=
  let (negative, unsigned) := match text with
    | '-' :: more => (true, more)
    | _ => (false, text)
  let overflowed := if negative then Binary64.negativeInfinity else Binary64.infinity
  if unsigned.isEmpty then none
  else
    match wholeDigits radix negative (if negative then .negativeZero else .zero) unsigned with
    | .overflow => some overflowed
    | .number whole ('.' :: places) =>
      match placeDigits radix negative whole .one places with
      | .overflow => some overflowed
      | .number value rest => (exponentFactor? radix rest).map (value * ·)
    | .number whole rest => (exponentFactor? radix rest).map (whole * ·)

/-- A text as a number in a radix. Radix ten is the ordinary reading. In every other one the words for
infinity and for an undefined number are read first; a radix below two has hardly any digits, and one
above thirty-six no more than the letters allow. -/
def ofText? (radix : Nat) (text : List Char) : Option Binary64 :=
  if radix = 10 then Binary64.ofText? text
  else
    let unsigned := match text with
      | '-' :: more => more
      | _ => text
    match Binary64.wordMagnitude? unsigned with
    | some magnitude => some (if unsigned.length = text.length then magnitude else -magnitude)
    | none => form? radix text

end Tangency.Radix
