/-
Symbolic differentiation. Each rule takes the operands with their derivatives and
builds through the folding constructors. A power has three rules, chosen by which
of its operands mention the variable, so that a constant exponent asks no
logarithm of the base. The logarithm to a base is differentiated as the quotient
of two logarithms; the lemma at the end says so.
-/

import Tangency.Expr.Fold

namespace Tangency.Expr

variable {α : Type u} [Scalar α]

def productRule (left leftSlope right rightSlope : Expr α) : Expr α :=
  sum (product leftSlope right) (product left rightSlope)

def quotientRule (left leftSlope right rightSlope : Expr α) : Expr α :=
  quotient (difference (product leftSlope right) (product left rightSlope)) (squared right)

/-- For a constant exponent `c·u^(c-1)·u'`, for a constant base `c^v·ln c·v'`, and otherwise
`u^v·(v'·ln u + v·u'/u)`. -/
def powerRule (base baseSlope exponent exponentSlope : Expr α) : Expr α :=
  if exponent.isConstant then
    product (product exponent (power base (difference exponent one))) baseSlope
  else if base.isConstant then
    product (product (power base exponent) (appliedTo .ln base)) exponentSlope
  else
    product (power base exponent)
      (sum (product exponentSlope (appliedTo .ln base)) (quotient (product exponent baseSlope) base))

def operatorRule (operator : Operator) (left leftSlope right rightSlope : Expr α) : Expr α :=
  match operator with
  | .add => sum leftSlope rightSlope
  | .sub => difference leftSlope rightSlope
  | .mul => productRule left leftSlope right rightSlope
  | .div => quotientRule left leftSlope right rightSlope
  | .pow => powerRule left leftSlope right rightSlope

def circleRoot (inner : Expr α) : Expr α := appliedTo .sqrt (difference one (squared inner))

def chainRule (function : Elementary) (inner slope : Expr α) : Expr α :=
  match function with
  | .sin => product (appliedTo .cos inner) slope
  | .cos => product (negated (appliedTo .sin inner)) slope
  | .tan => quotient slope (squared (appliedTo .cos inner))
  | .asin => quotient slope (circleRoot inner)
  | .acos => negated (quotient slope (circleRoot inner))
  | .atan => quotient slope (sum one (squared inner))
  | .sinh => product (appliedTo .cosh inner) slope
  | .cosh => product (appliedTo .sinh inner) slope
  | .tanh => quotient slope (squared (appliedTo .cosh inner))
  | .exp => product (appliedTo .exp inner) slope
  | .ln | .log => quotient slope inner
  | .log10 => quotient slope (product inner (number Scalar.logOfTen))
  | .sqrt => quotient slope (product (number Scalar.two) (appliedTo .sqrt inner))
  | .cbrt =>
    quotient slope (product (number (Scalar.natural 3)) (squared (appliedTo .cbrt inner)))
  | .abs => product (appliedTo .sign inner) slope
  | .sign => zero

def logarithmSlope (inner slope : Expr α) : Expr α :=
  match appliedTo .ln inner with
  | number _ => zero
  | _ => if slope.isZero then zero else quotient slope inner

/-- The slope of a logarithm to a base, as that of the quotient `ln inner / ln base`. -/
def baseRule (inner slope base baseSlope : Expr α) : Expr α :=
  if (appliedTo .ln base).isOne then logarithmSlope inner slope
  else
    match folded .div (appliedTo .ln inner) (appliedTo .ln base) with
    | number _ => zero
    | _ =>
      quotientRule (appliedTo .ln inner) (logarithmSlope inner slope)
        (appliedTo .ln base) (logarithmSlope base baseSlope)

/-- The slope of a call. Without an argument, or where the first argument has slope zero, it is
zero; arguments beyond those of the function play no part. -/
def callRule (function : Elementary) (arguments slopes : List (Expr α)) : Expr α :=
  match function, arguments, slopes with
  | .log, [inner, base], [slope, baseSlope] => baseRule inner slope base baseSlope
  | _, inner :: _, slope :: _ => if slope.isZero then zero else chainRule function inner slope
  | _, _, _ => zero

mutual

def derivative : Expr α → Expr α
  | number _ => zero
  | var => one
  | neg operand => negated operand.derivative
  | binary operator left right =>
    operatorRule operator left left.derivative right right.derivative
  | call function arguments => callRule function arguments (derivativeAll arguments)

def derivativeAll : List (Expr α) → List (Expr α)
  | [] => []
  | argument :: arguments => argument.derivative :: derivativeAll arguments

end

def secondDerivative (tree : Expr α) : Expr α := tree.derivative.derivative

theorem derivative_appliedTo_ln (inner : Expr α) :
    (appliedTo .ln inner).derivative = logarithmSlope inner inner.derivative := by
  unfold logarithmSlope appliedTo
  rcases applied_eq_number_or_call .ln [inner] with ⟨literal, folds⟩ | stays
  · rw [folds]
    rfl
  · rw [stays]
    rfl

/-- A logarithm to a base has the slope of the quotient that it stands for. -/
theorem derivative_log_base (inner base : Expr α) :
    (call .log [inner, base]).derivative =
      (quotient (appliedTo .ln inner) (appliedTo .ln base)).derivative := by
  change baseRule inner inner.derivative base base.derivative = _
  unfold baseRule quotient
  split
  · exact (derivative_appliedTo_ln inner).symm
  · rcases folded_eq_number_or_binary .div (appliedTo .ln inner) (appliedTo .ln base) with
      ⟨literal, folds⟩ | stays
    · rw [folds]
      rfl
    · rw [stays, ← derivative_appliedTo_ln inner, ← derivative_appliedTo_ln base]
      rfl

end Tangency.Expr
