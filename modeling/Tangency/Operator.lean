/-
The five binary operators: how each is written, what it computes and how tightly
it binds. The levels only order the operators among each other and against
negation; which side keeps its parentheses is decided where trees are written.
-/

import Tangency.Scalar

namespace Tangency

inductive Operator where
  | add
  | sub
  | mul
  | div
  | pow
  deriving DecidableEq, Repr

namespace Operator

def symbol : Operator → Char
  | add => '+'
  | sub => '-'
  | mul => '*'
  | div => '/'
  | pow => '^'

def ofSymbol? (symbol : Char) : Option Operator :=
  [add, sub, mul, div, pow].find? fun operator => operator.symbol == symbol

def apply {α : Type u} [Scalar α] (operator : Operator) (left right : α) : α :=
  match operator with
  | add => left + right
  | sub => left - right
  | mul => left * right
  | div => left / right
  | pow => Scalar.pow left right

/-- Binding strength; negation stands at 3 and an operand without operator at 5. -/
def level : Operator → Nat
  | add | sub => 1
  | mul | div => 2
  | pow => 4

theorem symbol_of_ofSymbol? {symbol : Char} {operator : Operator}
    (found : ofSymbol? symbol = some operator) : operator.symbol = symbol := by
  unfold ofSymbol? at found
  simpa using List.find?_some found

end Operator

end Tangency
