/-
Building trees with a handful of identities applied on the way. Zeros and ones
among the operands disappear, literals are combined while the result stays finite,
and nested literal factors are gathered. A literal counts as zero or one by the
comparison of its scalar type. Differentiation builds through these functions, so
that repeated use does not pile up trivial nodes; a reader of formulas does not.
-/

import Tangency.Expr.Basic

namespace Tangency.Expr

variable {α : Type u} [Scalar α]

def zero : Expr α := number Scalar.zero

def one : Expr α := number Scalar.one

def isLiteral (tree : Expr α) (expected : α) : Bool :=
  match tree with
  | number literal => Scalar.isEqual literal expected
  | _ => false

def isZero (tree : Expr α) : Bool := tree.isLiteral Scalar.zero

def isOne (tree : Expr α) : Bool := tree.isLiteral Scalar.one

/-- The literal of a finite result, or else the tree that the result was computed from; so a
division by zero keeps its meaning until it is evaluated. -/
def literalOr (result : α) (unfolded : Expr α) : Expr α :=
  if Scalar.isFinite result then number result else unfolded

def folded (operator : Operator) (left right : Expr α) : Expr α :=
  match left, right with
  | number a, number b => literalOr (operator.apply a b) (binary operator left right)
  | _, _ => binary operator left right

def negated : Expr α → Expr α
  | number literal => number (-literal)
  | neg operand => operand
  | operand => neg operand

def sum (left right : Expr α) : Expr α :=
  if left.isZero then right
  else if right.isZero then left
  else folded .add left right

def difference (left right : Expr α) : Expr α :=
  if right.isZero then left
  else if left.isZero then negated right
  else folded .sub left right

/-- Product; a literal factor is gathered with a literal that leads the right factor. -/
def product (left right : Expr α) : Expr α :=
  if left.isZero || right.isZero then zero
  else if left.isOne then right
  else if right.isOne then left
  else
    match left, right with
    | number a, binary .mul (number b) rest =>
      if Scalar.isFinite (a * b) then product (number (a * b)) rest
      else binary .mul left right
    | _, _ => folded .mul left right
termination_by structural right

def quotient (left right : Expr α) : Expr α :=
  if right.isOne then left else folded .div left right

def power (base exponent : Expr α) : Expr α :=
  if exponent.isOne then base
  else if exponent.isZero then one
  else folded .pow base exponent

/-- A call; it becomes a literal if every argument is one and the result is finite. -/
def applied (function : Elementary) (arguments : List (Expr α)) : Expr α :=
  match arguments.mapM literal? with
  | some literals => literalOr (function.apply literals) (call function arguments)
  | none => call function arguments

def appliedTo (function : Elementary) (argument : Expr α) : Expr α := applied function [argument]

def squared (tree : Expr α) : Expr α := power tree (number Scalar.two)

theorem literalOr_eq_number_or_self (result : α) (unfolded : Expr α) :
    (∃ literal, literalOr result unfolded = number literal) ∨
      literalOr result unfolded = unfolded := by
  unfold literalOr
  split
  · exact .inl ⟨result, rfl⟩
  · exact .inr rfl

theorem folded_eq_number_or_binary (operator : Operator) (left right : Expr α) :
    (∃ literal, folded operator left right = number literal) ∨
      folded operator left right = binary operator left right := by
  unfold folded
  split
  · exact literalOr_eq_number_or_self _ _
  · exact .inr rfl

theorem applied_eq_number_or_call (function : Elementary) (arguments : List (Expr α)) :
    (∃ literal, applied function arguments = number literal) ∨
      applied function arguments = call function arguments := by
  unfold applied
  split
  · exact literalOr_eq_number_or_self _ _
  · exact .inr rfl

end Tangency.Expr
