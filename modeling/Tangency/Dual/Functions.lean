/-
Functions of dual numbers that formulas do not use: roundings, remainders, powers
with whole exponents, functions of two arguments and the rest of the elementary
ones. A rounding has slope zero, a choice between two operands takes the slope of
the one it chooses, and each other rule is the derivative of its function.
-/

import Tangency.Dual.Basic
import Tangency.RichScalar

namespace Tangency.Dual

variable {α : Type u} [RichScalar α]

/-- The remainder moves with the dividend, and against the divisor as often as that was taken
off. -/
def remainder (a b : Dual α) : Dual α :=
  ⟨RichScalar.remainder a.value b.value,
    a.slope - RichScalar.truncate (a.value / b.value) * b.slope⟩

def reciprocal (a : Dual α) : Dual α := constant Scalar.one / a

def multiplyAdd (a b c : Dual α) : Dual α := a * b + c

/-- A power with a whole exponent; the exponent of the slope is one less, as a machine word. -/
def wholePower (a : Dual α) (exponent : Int32) : Dual α :=
  ⟨Scalar.wholePower a.value exponent.toInt,
    Scalar.whole exponent.toInt * Scalar.wholePower a.value (exponent - 1).toInt * a.slope⟩

def floor (a : Dual α) : Dual α := constant (RichScalar.floor a.value)

def ceiling (a : Dual α) : Dual α := constant (RichScalar.ceiling a.value)

def round (a : Dual α) : Dual α := constant (RichScalar.round a.value)

def truncate (a : Dual α) : Dual α := constant (RichScalar.truncate a.value)

def fractional (a : Dual α) : Dual α := ⟨RichScalar.fractional a.value, a.slope⟩

def signUnit (a : Dual α) : Dual α := constant (RichScalar.signUnit a.value)

/-- The greater of two; the second unless the first is strictly greater. -/
def max (a b : Dual α) : Dual α := if Scalar.isLess b.value a.value then a else b

def min (a b : Dual α) : Dual α := if Scalar.isLess a.value b.value then a else b

def excess (a b : Dual α) : Dual α :=
  if Scalar.isLess b.value a.value then a - b else constant Scalar.zero

def exp2 (a : Dual α) : Dual α :=
  a.chain (RichScalar.exp2 a.value) (RichScalar.exp2 a.value * RichScalar.logOfTwo)

def expLessOne (a : Dual α) : Dual α := a.chain (RichScalar.expLessOne a.value) (Scalar.exp a.value)

def lnOneMore (a : Dual α) : Dual α :=
  a.chain (RichScalar.lnOneMore a.value) (Scalar.one / (Scalar.one + a.value))

def log2 (a : Dual α) : Dual α :=
  a.chain (RichScalar.log2 a.value) (Scalar.one / (a.value * RichScalar.logOfTwo))

def logarithm (a base : Dual α) : Dual α := a.ln / base.ln

/-- The length of a hypotenuse, with the squares carried out. -/
def hypotenuse (a b : Dual α) : Dual α := (a * a + b * b).sqrt

def asinh (a : Dual α) : Dual α :=
  a.chain (RichScalar.asinh a.value) (Scalar.one / Scalar.sqrt (a.value * a.value + Scalar.one))

def acosh (a : Dual α) : Dual α :=
  a.chain (RichScalar.acosh a.value) (Scalar.one / Scalar.sqrt (a.value * a.value - Scalar.one))

def atanh (a : Dual α) : Dual α :=
  a.chain (RichScalar.atanh a.value) (Scalar.one / (Scalar.one - a.value * a.value))

def angle (a b : Dual α) : Dual α :=
  ⟨RichScalar.atan2 a.value b.value,
    (b.value * a.slope - a.value * b.slope) / (a.value * a.value + b.value * b.value)⟩

def sinCos (a : Dual α) : Dual α × Dual α := (a.sin, a.cos)

end Tangency.Dual
