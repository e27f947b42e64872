/-
The closed table of functions that a formula may use. A name outside the table is
refused when a formula is read, so differentiation and evaluation are defined by
cases over the table. Covered are names, accepted argument counts and application;
the meaning of each function is that of the scalar operation it is applied through.
-/

import Tangency.Scalar

namespace Tangency

inductive Elementary where
  | sin
  | cos
  | tan
  | asin
  | acos
  | atan
  | sinh
  | cosh
  | tanh
  | exp
  | ln
  /-- Natural logarithm of one argument, or the logarithm of the first to the base of the second. -/
  | log
  | log10
  | sqrt
  | cbrt
  | abs
  | sign
  deriving DecidableEq, Repr

namespace Elementary

def table : List Elementary :=
  [sin, cos, tan, asin, acos, atan, sinh, cosh, tanh, exp, ln, log, log10, sqrt, cbrt, abs, sign]

def name : Elementary → String
  | sin => "sin"
  | cos => "cos"
  | tan => "tan"
  | asin => "asin"
  | acos => "acos"
  | atan => "atan"
  | sinh => "sinh"
  | cosh => "cosh"
  | tanh => "tanh"
  | exp => "exp"
  | ln => "ln"
  | log => "log"
  | log10 => "log10"
  | sqrt => "sqrt"
  | cbrt => "cbrt"
  | abs => "abs"
  | sign => "sign"

/-- The function of a name; capital letters make another name. -/
def ofName? (word : String) : Option Elementary :=
  table.find? fun function => function.name == word

/-- Only the logarithm takes a second argument, its base. -/
def acceptsCount (function : Elementary) (count : Nat) : Bool :=
  match function with
  | log => count == 1 || count == 2
  | _ => count == 1

def countText : Elementary → String
  | log => "1 or 2 arguments"
  | _ => "1 argument"

section Apply

variable {α : Type u} [Scalar α]

def applyOne (function : Elementary) (argument : α) : α :=
  match function with
  | sin => Scalar.sin argument
  | cos => Scalar.cos argument
  | tan => Scalar.tan argument
  | asin => Scalar.asin argument
  | acos => Scalar.acos argument
  | atan => Scalar.atan argument
  | sinh => Scalar.sinh argument
  | cosh => Scalar.cosh argument
  | tanh => Scalar.tanh argument
  | exp => Scalar.exp argument
  | ln | log => Scalar.ln argument
  | log10 => Scalar.log10 argument
  | sqrt => Scalar.sqrt argument
  | cbrt => Scalar.cbrt argument
  | abs => Scalar.abs argument
  | sign => Scalar.sign argument

/-- Application to any number of arguments; undefined for a count that is not accepted. -/
def apply (function : Elementary) (arguments : List α) : α :=
  match function, arguments with
  | log, [argument, base] => Scalar.ln argument / Scalar.ln base
  | _, [argument] => applyOne function argument
  | _, _ => Scalar.undefined

theorem apply_singleton (function : Elementary) (argument : α) :
    function.apply [argument] = function.applyOne argument := by
  cases function <;> rfl

end Apply

theorem ofName?_name (function : Elementary) : ofName? function.name = some function := by
  cases function <;> rfl

end Elementary

end Tangency
