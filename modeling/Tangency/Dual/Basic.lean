/-
Dual numbers: a value with the slope at which it changes. Arithmetic on them
carries first derivatives along, so a program run over dual numbers differentiates
what it computes, independently of the symbolic rules. Comparisons look at values
only. The rule of each operation is written with the operations of the underlying
scalars, in the order in which they are carried out.
-/

import Tangency.Scalar

namespace Tangency

structure Dual (α : Type u) where
  value : α
  slope : α
  deriving Repr

namespace Dual

variable {α : Type u} [Scalar α]

def constant (value : α) : Dual α := ⟨value, Scalar.zero⟩

/-- The variable itself, which changes at unit slope. -/
def seed (value : α) : Dual α := ⟨value, Scalar.one⟩

def chain (argument : Dual α) (result derivative : α) : Dual α :=
  ⟨result, derivative * argument.slope⟩

instance : Add (Dual α) where
  add a b := ⟨a.value + b.value, a.slope + b.slope⟩

instance : Sub (Dual α) where
  sub a b := ⟨a.value - b.value, a.slope - b.slope⟩

instance : Mul (Dual α) where
  mul a b := ⟨a.value * b.value, a.value * b.slope + a.slope * b.value⟩

instance : Div (Dual α) where
  div a b :=
    ⟨a.value / b.value, (a.slope * b.value - a.value * b.slope) / (b.value * b.value)⟩

instance : Neg (Dual α) where
  neg a := ⟨-a.value, -a.slope⟩

/-- A power. A resting exponent needs no logarithm, so a negative base keeps its slope; a resting
base under it has slope zero. -/
def pow (base exponent : Dual α) : Dual α :=
  if Scalar.isEqual exponent.slope Scalar.zero then
    ⟨Scalar.pow base.value exponent.value,
      if Scalar.isEqual base.slope Scalar.zero then Scalar.zero
      else
        exponent.value * Scalar.pow base.value (exponent.value - Scalar.one) * base.slope⟩
  else
    ⟨Scalar.pow base.value exponent.value,
      Scalar.pow base.value exponent.value *
        (exponent.slope * Scalar.ln base.value + exponent.value * base.slope / base.value)⟩

def sin (a : Dual α) : Dual α := a.chain (Scalar.sin a.value) (Scalar.cos a.value)

def cos (a : Dual α) : Dual α := a.chain (Scalar.cos a.value) (-Scalar.sin a.value)

def tan (a : Dual α) : Dual α :=
  a.chain (Scalar.tan a.value) (Scalar.one + Scalar.tan a.value * Scalar.tan a.value)

def asin (a : Dual α) : Dual α :=
  a.chain (Scalar.asin a.value) (Scalar.one / Scalar.sqrt (Scalar.one - a.value * a.value))

def acos (a : Dual α) : Dual α :=
  a.chain (Scalar.acos a.value) (-Scalar.one / Scalar.sqrt (Scalar.one - a.value * a.value))

def atan (a : Dual α) : Dual α :=
  a.chain (Scalar.atan a.value) (Scalar.one / (Scalar.one + a.value * a.value))

def sinh (a : Dual α) : Dual α := a.chain (Scalar.sinh a.value) (Scalar.cosh a.value)

def cosh (a : Dual α) : Dual α := a.chain (Scalar.cosh a.value) (Scalar.sinh a.value)

def tanh (a : Dual α) : Dual α :=
  a.chain (Scalar.tanh a.value) (Scalar.one - Scalar.tanh a.value * Scalar.tanh a.value)

def exp (a : Dual α) : Dual α := a.chain (Scalar.exp a.value) (Scalar.exp a.value)

def ln (a : Dual α) : Dual α := a.chain (Scalar.ln a.value) (Scalar.one / a.value)

def log10 (a : Dual α) : Dual α :=
  a.chain (Scalar.log10 a.value) (Scalar.one / (a.value * Scalar.logOfTen))

def sqrt (a : Dual α) : Dual α :=
  a.chain (Scalar.sqrt a.value) (Scalar.half / Scalar.sqrt a.value)

def cbrt (a : Dual α) : Dual α :=
  a.chain (Scalar.cbrt a.value)
    (Scalar.one / (Scalar.natural 3 * Scalar.cbrt a.value * Scalar.cbrt a.value))

/-- The slope changes its sign with the value; zero counts as positive. -/
def abs (a : Dual α) : Dual α :=
  ⟨Scalar.abs a.value, if Scalar.isAtMost Scalar.zero a.value then a.slope else -a.slope⟩

instance : Scalar (Dual α) where
  natural n := constant (Scalar.natural n)
  undefined := constant Scalar.undefined
  logOfTen := constant Scalar.logOfTen
  pow := pow
  sin := sin
  cos := cos
  tan := tan
  asin := asin
  acos := acos
  atan := atan
  sinh := sinh
  cosh := cosh
  tanh := tanh
  exp := exp
  ln := ln
  log10 := log10
  sqrt := sqrt
  cbrt := cbrt
  abs := abs
  isLess a b := Scalar.isLess a.value b.value
  isEqual a b := Scalar.isEqual a.value b.value && Scalar.isEqual a.slope b.slope
  isFinite a := Scalar.isFinite a.value

end Dual

end Tangency
