/-
The arithmetic that expressions are evaluated in. A scalar type names its
operations and says nothing about their laws, so one evaluator serves doubles,
singles, dual numbers and exact numbers alike; what an instance satisfies is
stated where it is used. Comparisons are decisions of the instance: on doubles
they are those of IEEE 754, where NaN is neither equal to nor less than anything.
-/

import Tangency.Numeric.Binary64

namespace Tangency

/-- Operations of a scalar type. `undefined` is the value of an operation outside its domain where
the operation itself has none. -/
class Scalar (α : Type u) extends Add α, Sub α, Mul α, Div α, Neg α where
  natural : Nat → α
  undefined : α
  logOfTen : α
  pow : α → α → α
  sin : α → α
  cos : α → α
  tan : α → α
  asin : α → α
  acos : α → α
  atan : α → α
  sinh : α → α
  cosh : α → α
  tanh : α → α
  exp : α → α
  ln : α → α
  log10 : α → α
  sqrt : α → α
  cbrt : α → α
  abs : α → α
  isLess : α → α → Bool
  isEqual : α → α → Bool
  isFinite : α → Bool

namespace Scalar

variable {α : Type u} [Scalar α]

def zero : α := natural 0

def one : α := natural 1

def two : α := natural 2

def half : α := natural 1 / natural 2

def isUndefined (value : α) : Bool := !isEqual value value

def isAtMost (left right : α) : Bool := isLess left right || isEqual left right

/-- One with the sign of the argument; a zero and an incomparable value are multiplied by zero, so
that zero stays zero and an undefined value stays undefined. -/
def sign (value : α) : α :=
  if isLess zero value then one
  else if isLess value zero then -one
  else value * zero

/-- The larger of two scalars. An undefined operand gives way to the other, and of two equal ones
the second is taken. -/
def larger (left right : α) : α :=
  if isLess right left || isUndefined right then left else right

end Scalar

instance : Scalar Binary64 where
  natural := Binary64.ofNat
  undefined := Binary64.notANumber
  logOfTen := ⟨0x40026BB1BBB55516⟩
  pow := Binary64.raised
  sin := Binary64.unary Float.sin
  cos := Binary64.unary Float.cos
  tan := Binary64.unary Float.tan
  asin := Binary64.unary Float.asin
  acos := Binary64.unary Float.acos
  atan := Binary64.unary Float.atan
  sinh := Binary64.unary Float.sinh
  cosh := Binary64.unary Float.cosh
  tanh := Binary64.unary Float.tanh
  exp := Binary64.unary Float.exp
  ln := Binary64.unary Float.log
  log10 := Binary64.unary Float.log10
  sqrt := Binary64.unary Float.sqrt
  cbrt := Binary64.unary Float.cbrt
  abs := Binary64.abs
  isLess := Binary64.isLess
  isEqual := Binary64.isEqual
  isFinite := Binary64.isFinite

instance : Scalar Float32 where
  natural := Float32.ofNat
  undefined := Float32.ofBits 0x7FC00000
  logOfTen := (Binary64.toFloat ⟨0x40026BB1BBB55516⟩).toFloat32
  pow := Float32.pow
  sin := Float32.sin
  cos := Float32.cos
  tan := Float32.tan
  asin := Float32.asin
  acos := Float32.acos
  atan := Float32.atan
  sinh := Float32.sinh
  cosh := Float32.cosh
  tanh := Float32.tanh
  exp := Float32.exp
  ln := Float32.log
  log10 := Float32.log10
  sqrt := Float32.sqrt
  cbrt := Float32.cbrt
  abs := Float32.abs
  isLess := fun left right => decide (left < right)
  isEqual := fun left right => left == right
  isFinite := Float32.isFinite

end Tangency
