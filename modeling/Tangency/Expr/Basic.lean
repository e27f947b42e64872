/-
Formulas in one variable as trees. The literals are of any type. A tree is what a
reader found and no more: operations are not folded here, and a call may hold any
number of arguments. Covered are size, the mention of the variable, and the value
of a tree over a scalar type into which the literals are carried.
-/

import Tangency.Elementary
import Tangency.Operator

namespace Tangency

/-- A formula over literals of type `α`; `var` is its one variable. -/
inductive Expr (α : Type u) where
  | number (literal : α)
  | var
  | neg (operand : Expr α)
  | binary (operator : Operator) (left right : Expr α)
  | call (function : Elementary) (arguments : List (Expr α))
  deriving Repr

namespace Expr

variable {α : Type u}

def variableName : String := "x"

def literal? : Expr α → Option α
  | number literal => some literal
  | _ => none

mutual

def size : Expr α → Nat
  | number _ => 1
  | var => 1
  | neg operand => 1 + operand.size
  | binary _ left right => 1 + left.size + right.size
  | call _ arguments => 1 + sizeAll arguments

def sizeAll : List (Expr α) → Nat
  | [] => 0
  | argument :: arguments => argument.size + sizeAll arguments

end

mutual

def isConstant : Expr α → Bool
  | number _ => true
  | var => false
  | neg operand => operand.isConstant
  | binary _ left right => left.isConstant && right.isConstant
  | call _ arguments => isConstantAll arguments

def isConstantAll : List (Expr α) → Bool
  | [] => true
  | argument :: arguments => argument.isConstant && isConstantAll arguments

end

section Value

variable {β : Type v} [Scalar β]

mutual

/-- The value at a point, each literal carried into the scalar type by `lift`. -/
def value (lift : α → β) (point : β) : Expr α → β
  | number literal => lift literal
  | var => point
  | neg operand => -value lift point operand
  | binary operator left right => operator.apply (value lift point left) (value lift point right)
  | call function arguments => function.apply (valueAll lift point arguments)

def valueAll (lift : α → β) (point : β) : List (Expr α) → List β
  | [] => []
  | argument :: arguments => value lift point argument :: valueAll lift point arguments

end

end Value

theorem valueAll_eq_map {β : Type v} [Scalar β] (lift : α → β) (point : β)
    (arguments : List (Expr α)) :
    valueAll lift point arguments = arguments.map (value lift point) := by
  induction arguments with
  | nil => rfl
  | cons argument arguments ih => simp [valueAll, ih]

theorem size_pos (tree : Expr α) : 0 < tree.size := by
  cases tree <;> simp only [size] <;> omega

end Expr

end Tangency
