/-
The text of a tree. Parentheses stand where the levels of an operator and its
operand ask for them: an operand that binds less tightly is always enclosed, one
that binds equally only to the right of `-` and `/` and to the left of `^`. A
literal with a minus binds like a negation, also where its text leaves the minus
out. Sums are spaced and products are not.
The text is built in front of what follows it, which gives the same characters.
-/

import Tangency.Expr.Basic
import Tangency.Numeral

namespace Tangency.Expr

variable {α : Type u} [Numeral α]

/-- Level of a negation and of a literal with a minus. -/
def negationLevel : Nat := 3

def atomLevel : Nat := 5

def level : Expr α → Nat
  | number literal => if Numeral.isNegative literal then negationLevel else atomLevel
  | var => atomLevel
  | neg _ => negationLevel
  | binary operator _ _ => operator.level
  | call _ _ => atomLevel

def enclosedIf (enclose : Bool) (written : List Char) : List Char :=
  if enclose then '(' :: (written ++ [')']) else written

def enclosesLeft (operator : Operator) (operandLevel : Nat) : Bool :=
  match operator with
  | .pow => operandLevel ≤ operator.level
  | _ => operandLevel < operator.level

def enclosesRight (operator : Operator) (operandLevel : Nat) : Bool :=
  match operator with
  | .sub | .div => operandLevel ≤ operator.level
  | _ => operandLevel < operator.level

def writtenOperator (operator : Operator) : List Char :=
  match operator with
  | .add | .sub => [' ', operator.symbol, ' ']
  | _ => [operator.symbol]

mutual

def written : Expr α → List Char
  | number literal => Numeral.text literal
  | var => variableName.toList
  | neg operand => '-' :: enclosedIf (operand.level ≤ negationLevel) operand.written
  | binary operator left right =>
    enclosedIf (enclosesLeft operator left.level) left.written ++
      (writtenOperator operator ++
        enclosedIf (enclosesRight operator right.level) right.written)
  | call function arguments =>
    function.name.toList ++ '(' :: (writtenAll arguments ++ [')'])

def writtenAll : List (Expr α) → List Char
  | [] => []
  | [argument] => argument.written
  | argument :: next :: arguments =>
    argument.written ++ ',' :: ' ' :: writtenAll (next :: arguments)

end

def enclosedOnto (enclose : Bool) (writer : List Char → List Char) (rest : List Char) : List Char :=
  if enclose then '(' :: writer (')' :: rest) else writer rest

mutual

/-- The characters of a tree in front of a rest. No character is moved twice, so long texts are
written in time proportional to their length. -/
def writtenOnto : Expr α → List Char → List Char
  | number literal, rest => Numeral.text literal ++ rest
  | var, rest => variableName.toList ++ rest
  | neg operand, rest =>
    '-' :: enclosedOnto (operand.level ≤ negationLevel) operand.writtenOnto rest
  | binary operator left right, rest =>
    enclosedOnto (enclosesLeft operator left.level) left.writtenOnto
      (writtenOperator operator ++
        enclosedOnto (enclosesRight operator right.level) right.writtenOnto rest)
  | call function arguments, rest =>
    function.name.toList ++ '(' :: writtenAllOnto arguments (')' :: rest)

def writtenAllOnto : List (Expr α) → List Char → List Char
  | [], rest => rest
  | [argument], rest => argument.writtenOnto rest
  | argument :: next :: arguments, rest =>
    argument.writtenOnto (',' :: ' ' :: writtenAllOnto (next :: arguments) rest)

end

def text (tree : Expr α) : String := String.ofList (tree.writtenOnto [])

theorem enclosedOnto_eq_append (enclose : Bool) {writer : List Char → List Char}
    {written : List Char} (agrees : ∀ rest, writer rest = written ++ rest) (rest : List Char) :
    enclosedOnto enclose writer rest = enclosedIf enclose written ++ rest := by
  cases enclose <;> simp [enclosedOnto, enclosedIf, agrees]

mutual

theorem writtenOnto_eq_append (tree : Expr α) (rest : List Char) :
    tree.writtenOnto rest = tree.written ++ rest := by
  match tree with
  | number literal => rfl
  | var => rfl
  | neg operand =>
    rw [writtenOnto, enclosedOnto_eq_append _ (writtenOnto_eq_append operand), written]
    rfl
  | binary operator left right =>
    rw [writtenOnto, enclosedOnto_eq_append _ (writtenOnto_eq_append left),
      enclosedOnto_eq_append _ (writtenOnto_eq_append right), written]
    simp only [List.append_assoc]
  | call function arguments =>
    rw [writtenOnto, writtenAllOnto_eq_append arguments, written]
    simp only [List.append_assoc, List.cons_append, List.nil_append]

theorem writtenAllOnto_eq_append (arguments : List (Expr α)) (rest : List Char) :
    writtenAllOnto arguments rest = writtenAll arguments ++ rest := by
  match arguments with
  | [] => rfl
  | [argument] => exact writtenOnto_eq_append argument rest
  | argument :: next :: others =>
    rw [writtenAllOnto, writtenAllOnto_eq_append (next :: others) rest,
      writtenOnto_eq_append argument, writtenAll]
    simp only [List.append_assoc, List.cons_append]

end

theorem toList_text (tree : Expr α) : tree.text.toList = tree.written := by
  rw [text, writtenOnto_eq_append, List.append_nil, String.toList_ofList]

end Tangency.Expr
