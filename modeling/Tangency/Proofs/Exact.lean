/-
Exact arithmetic with undefined results.

An exact number is an element of a field, or nothing where an operation has no
value.  Sums, differences, products and quotients are those of the field; the other
operations have a meaning that is a parameter.  Every operation passes an undefined
operand on, and finite means defined, so literals fold whenever their result exists.
-/

import Mathlib.Algebra.Field.Basic
import Tangency.Expr.Fold

namespace Tangency

universe u

/-- An element of a field, or no value. -/
inductive Exact (K : Type u) where
  | known (value : K)
  | undefined

/-- The operations on exact numbers that a field does not come with. -/
class ExactMeaning (K : Type u) where
  logOfTen : K
  isLess : K → K → Bool
  pow : K → K → Exact K
  sin : K → Exact K
  cos : K → Exact K
  tan : K → Exact K
  asin : K → Exact K
  acos : K → Exact K
  atan : K → Exact K
  sinh : K → Exact K
  cosh : K → Exact K
  tanh : K → Exact K
  exp : K → Exact K
  ln : K → Exact K
  log10 : K → Exact K
  sqrt : K → Exact K
  cbrt : K → Exact K
  abs : K → Exact K

namespace Exact

variable {K : Type u}

def lift (operation : K → Exact K) : Exact K → Exact K
  | known value => operation value
  | undefined => undefined

def lift₂ (operation : K → K → Exact K) : Exact K → Exact K → Exact K
  | known left, known right => operation left right
  | _, _ => undefined

def toField [Zero K] : Exact K → K
  | known value => value
  | undefined => 0

def isKnown : Exact K → Bool
  | known _ => true
  | undefined => false

/-- A comparison, which holds of defined numbers only. -/
def compare (comparison : K → K → Bool) : Exact K → Exact K → Bool
  | known left, known right => comparison left right
  | _, _ => false

def divide [Field K] [DecidableEq K] (left right : K) : Exact K :=
  if right = 0 then undefined else known (left / right)

instance [Field K] [DecidableEq K] [ExactMeaning K] : Scalar (Exact K) where
  add := lift₂ fun left right => known (left + right)
  sub := lift₂ fun left right => known (left - right)
  mul := lift₂ fun left right => known (left * right)
  div := lift₂ divide
  neg := lift fun value => known (-value)
  natural n := known n
  undefined := undefined
  logOfTen := known ExactMeaning.logOfTen
  pow := lift₂ ExactMeaning.pow
  sin := lift ExactMeaning.sin
  cos := lift ExactMeaning.cos
  tan := lift ExactMeaning.tan
  asin := lift ExactMeaning.asin
  acos := lift ExactMeaning.acos
  atan := lift ExactMeaning.atan
  sinh := lift ExactMeaning.sinh
  cosh := lift ExactMeaning.cosh
  tanh := lift ExactMeaning.tanh
  exp := lift ExactMeaning.exp
  ln := lift ExactMeaning.ln
  log10 := lift ExactMeaning.log10
  sqrt := lift ExactMeaning.sqrt
  cbrt := lift ExactMeaning.cbrt
  abs := lift ExactMeaning.abs
  isLess := compare ExactMeaning.isLess
  isEqual := compare fun left right => decide (left = right)
  isFinite := isKnown

section Known

theorem known_injective {left right : K} (same : known left = known right) : left = right :=
  Exact.known.inj same

variable [Field K] [DecidableEq K] [ExactMeaning K] (left right : K)

@[simp]
theorem known_add : known left + known right = known (left + right) := rfl

@[simp]
theorem known_sub : known left - known right = known (left - right) := rfl

@[simp]
theorem known_mul : known left * known right = known (left * right) := rfl

@[simp]
theorem neg_known : -known left = known (-left) := rfl

theorem known_div : known left / known right = divide left right := rfl

theorem known_div_of_ne_zero {right : K} (nonzero : right ≠ 0) :
    known left / known right = known (left / right) :=
  if_neg nonzero

theorem eq_of_known_div {left right value : K} (defined : known left / known right = known value) :
    right ≠ 0 ∧ value = left / right := by
  rw [known_div, divide] at defined
  split at defined
  · cases defined
  · rename_i nonzero
    exact ⟨nonzero, (known_injective defined).symm⟩

@[simp]
theorem zero_eq : (Scalar.zero : Exact K) = known 0 := congrArg known Nat.cast_zero

@[simp]
theorem one_eq : (Scalar.one : Exact K) = known 1 := congrArg known Nat.cast_one

@[simp]
theorem two_eq : (Scalar.two : Exact K) = known 2 := congrArg known Nat.cast_ofNat

theorem isEqual_known : Scalar.isEqual (known left) (known right) = decide (left = right) := rfl

end Known

end Exact

end Tangency
