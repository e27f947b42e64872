/-
Doubles as bit patterns. A finite double is a sign, a whole significand and a
power of two, read here from its pattern; in the other direction an exact quotient
is rounded to the nearest double, a tie going to the even significand. Sums,
products and comparisons are those of `Float`, which has a single NaN. A pattern
has a sign for NaN as well: a result that is not a number repeats the first
operand that is not one, and without such an operand its sign is a minus.
-/

import Tangency.Numeric.Power

namespace Tangency

/-- A double, known by its bits. The two zeros are different patterns that compare as equal. -/
structure Binary64 where
  bits : UInt64
  deriving DecidableEq, Repr

namespace Binary64

def exponentField (x : Binary64) : Nat := x.bits.toNat / twoTo 52 % 2048

def fraction (x : Binary64) : Nat := x.bits.toNat % twoTo 52

def magnitudeBits (x : Binary64) : Nat := x.bits.toNat % twoTo 63

/-- The sign bit. It tells `-0` from `0`, and one NaN from another. -/
def isNegative (x : Binary64) : Bool := decide (twoTo 63 ≤ x.bits.toNat)

/-- Whole significand: the fraction, with the hidden bit above it for a normal double. -/
def significand (x : Binary64) : Nat :=
  if exponentField x = 0 then fraction x else twoTo 52 + fraction x

/-- Power of two that scales the significand; the subnormal doubles share the least one. -/
def power (x : Binary64) : Int := (max (exponentField x) 1 : Nat) - 1075

def magnitudeNumerator (x : Binary64) : Nat := significand x * twoTo (power x).toNat

/-- Denominator of the magnitude of a finite double; always a power of two. -/
def magnitudeDenominator (x : Binary64) : Nat := twoTo (-power x).toNat

/-- Bits of the magnitude of an infinity; those of a finite double are below. -/
def infinityBits : Nat := 2047 * twoTo 52

def infinity : Binary64 := ⟨0x7FF0000000000000⟩

def negativeInfinity : Binary64 := ⟨0xFFF0000000000000⟩

def notANumber : Binary64 := ⟨0x7FF8000000000000⟩

/-- The NaN of an operation that is undefined although its operands are numbers. -/
def indefinite : Binary64 := ⟨0xFFF8000000000000⟩

def zero : Binary64 := ⟨0x0000000000000000⟩

def negativeZero : Binary64 := ⟨0x8000000000000000⟩

def one : Binary64 := ⟨0x3FF0000000000000⟩

def greatest : Binary64 := ⟨0x7FEFFFFFFFFFFFFF⟩

def least : Binary64 := ⟨0xFFEFFFFFFFFFFFFF⟩

def leastNormal : Binary64 := ⟨0x0010000000000000⟩

inductive Category where
  | notANumber
  | infinite
  | zero
  | subnormal
  | normal
  deriving DecidableEq, Repr

def category (x : Binary64) : Category :=
  if exponentField x = 2047 then
    if fraction x = 0 then .infinite else .notANumber
  else if exponentField x = 0 then
    if fraction x = 0 then .zero else .subnormal
  else .normal

def isNaN (x : Binary64) : Bool := x.category == .notANumber

def isInfinite (x : Binary64) : Bool := x.category == .infinite

def isFinite (x : Binary64) : Bool := decide (exponentField x ≠ 2047)

def ofMagnitudeBits (negative : Bool) (magnitude : Nat) : Binary64 :=
  ⟨UInt64.ofNat (if negative then twoTo 63 + magnitude else magnitude)⟩

def withSignOf (magnitude sign : Binary64) : Binary64 :=
  ofMagnitudeBits sign.isNegative magnitude.magnitudeBits

def abs (x : Binary64) : Binary64 := ofMagnitudeBits false x.magnitudeBits

instance : Neg Binary64 where
  neg x := ofMagnitudeBits (!x.isNegative) x.magnitudeBits

def toFloat (x : Binary64) : Float := Float.ofBits x.bits

def ofFloat (value : Float) : Binary64 := ⟨value.toBits⟩

def undefinedAt (operands : List Binary64) : Binary64 := (operands.find? isNaN).getD indefinite

/-- The result of an operation, where `Float` knows a number that it is. -/
def settled (operands : List Binary64) (result : Float) : Binary64 :=
  if result.isNaN then undefinedAt operands else ofFloat result

/-- A function of one double. NaN is its own value, whatever the function. -/
def unary (function : Float → Float) (x : Binary64) : Binary64 :=
  if x.isNaN then x else settled [x] (function x.toFloat)

def binary (function : Float → Float → Float) (x y : Binary64) : Binary64 :=
  settled [x, y] (function x.toFloat y.toFloat)

/-- A power. It is one if its exponent is zero or its base is one, beside a NaN as well; otherwise a
NaN goes through. -/
def raised (base exponent : Binary64) : Binary64 :=
  if exponent.magnitudeBits = 0 ∨ base = one then one
  else if base.isNaN ∨ exponent.isNaN then undefinedAt [base, exponent]
  else binary Float.pow base exponent

instance : Add Binary64 where
  add := binary (· + ·)

instance : Sub Binary64 where
  sub := binary (· - ·)

instance : Mul Binary64 where
  mul := binary (· * ·)

instance : Div Binary64 where
  div := binary (· / ·)

def isLess (x y : Binary64) : Bool := decide (x.toFloat < y.toFloat)

def isAtMost (x y : Binary64) : Bool := decide (x.toFloat ≤ y.toFloat)

/-- Whether two doubles compare as equal: zeros do whatever their signs, and NaN never does. -/
def isEqual (x y : Binary64) : Bool := x.toFloat == y.toFloat

/-! ### Rounding an exact quotient -/

/-- The whole number nearest to a quotient; a tie goes to the even neighbour. -/
def nearestEven (numerator denominator : Nat) : Nat :=
  let whole := numerator / denominator
  let twiceRest := 2 * (numerator % denominator)
  if twiceRest < denominator then whole
  else if denominator < twiceRest then whole + 1
  else whole + whole % 2

/-- The exponent `e` with `2 ^ e ≤ numerator / denominator < 2 ^ (e + 1)`, both parts positive.
The difference of the binary lengths is that exponent or one more. -/
def binaryOrder (numerator denominator : Nat) : Int :=
  let guess : Int := (numerator.log2 : Int) - denominator.log2
  if numerator * twoTo (-guess).toNat < denominator * twoTo guess.toNat then guess - 1 else guess

/-- Bits of the magnitude nearest to a quotient. The significand may round up to `2 ^ 53`; adding
it to the shifted exponent then carries into the next binade, and past the last one the
result stops at infinity. -/
def nearestMagnitudeBits (numerator denominator : Nat) : Nat :=
  if numerator = 0 then 0
  else
    let scale : Int := max (binaryOrder numerator denominator - 52) (-1074)
    let rounded := nearestEven (numerator * twoTo (-scale).toNat) (denominator * twoTo scale.toNat)
    min ((scale + 1074).toNat * twoTo 52 + rounded) infinityBits

def ofRatio (negative : Bool) (numerator denominator : Nat) : Binary64 :=
  ofMagnitudeBits negative (nearestMagnitudeBits numerator denominator)

def ofNat (n : Nat) : Binary64 := ofRatio false n 1

def ofInt (n : Int) : Binary64 := ofRatio (decide (n < 0)) n.natAbs 1

/-- Significand of 53 bits (a subnormal's fraction moved up by one place), exponent of two, and
sign. An infinity is read by the same rule, as if its exponent were an ordinary one. -/
def decode (x : Binary64) : Nat × Int × Int :=
  let bits := if exponentField x = 0 then 2 * fraction x else twoTo 52 + fraction x
  (bits, (exponentField x : Int) - 1075, if isNegative x then -1 else 1)

theorem magnitudeBits_lt (x : Binary64) : x.magnitudeBits < twoTo 63 := Nat.mod_lt _ (twoTo_pos 63)

theorem toNat_bits_ofMagnitudeBits (negative : Bool) {magnitude : Nat}
    (fits : magnitude < twoTo 63) :
    (ofMagnitudeBits negative magnitude).bits.toNat =
      if negative then twoTo 63 + magnitude else magnitude := by
  have top : twoTo 63 = 9223372036854775808 := rfl
  cases negative <;> simp only [ofMagnitudeBits, UInt64.toNat_ofNat'] <;>
    exact Nat.mod_eq_of_lt (by simp; omega)

theorem isNegative_ofMagnitudeBits (negative : Bool) {magnitude : Nat}
    (fits : magnitude < twoTo 63) : (ofMagnitudeBits negative magnitude).isNegative = negative := by
  rw [isNegative, toNat_bits_ofMagnitudeBits negative fits]
  cases negative <;> simp [fits]

theorem magnitudeBits_ofMagnitudeBits (negative : Bool) {magnitude : Nat}
    (fits : magnitude < twoTo 63) :
    (ofMagnitudeBits negative magnitude).magnitudeBits = magnitude := by
  rw [magnitudeBits, toNat_bits_ofMagnitudeBits negative fits]
  cases negative <;> simp [Nat.mod_eq_of_lt fits]

theorem ofMagnitudeBits_eq_self (x : Binary64) :
    ofMagnitudeBits x.isNegative x.magnitudeBits = x := by
  have top : twoTo 63 = 9223372036854775808 := rfl
  have bound := x.bits.toNat_lt
  have bitsEqual : (ofMagnitudeBits x.isNegative x.magnitudeBits).bits = x.bits := by
    apply UInt64.toNat_inj.mp
    rw [toNat_bits_ofMagnitudeBits _ x.magnitudeBits_lt]
    simp only [isNegative, magnitudeBits, decide_eq_true_eq, top]
    split <;> omega
  cases x
  exact congrArg Binary64.mk bitsEqual

theorem isNegative_neg (x : Binary64) : (-x).isNegative = !x.isNegative :=
  isNegative_ofMagnitudeBits _ x.magnitudeBits_lt

theorem magnitudeBits_neg (x : Binary64) : (-x).magnitudeBits = x.magnitudeBits :=
  magnitudeBits_ofMagnitudeBits _ x.magnitudeBits_lt

end Binary64

end Tangency
