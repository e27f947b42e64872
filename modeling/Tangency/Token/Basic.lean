/-
Tokens of a formula. A token keeps the characters it was read from and the
position of the first of them; its kind holds what later stages look at. Token
lists need not come from a scan: text, kind and position are independent here.
-/

import Tangency.Failure

namespace Tangency

/-- What a token is. `finish` stands behind the last token of a text. -/
inductive TokenKind (α : Type u) where
  | number (literal : α)
  | name
  | operator (symbol : Char)
  | opening
  | closing
  | comma
  | finish
  deriving Repr

structure Token (α : Type u) where
  kind : TokenKind α
  text : String
  /-- Number of characters before the token. -/
  position : Nat
  deriving Repr

namespace Token

variable {α : Type u}

def isFinish (token : Token α) : Bool :=
  match token.kind with
  | .finish => true
  | _ => false

def symbol? (token : Token α) : Option Char :=
  match token.kind with
  | .operator symbol => some symbol
  | _ => none

def found (token : Token α) : Found :=
  match token.kind with
  | .finish => .endOfInput
  | _ => .token token.text

end Token

end Tangency
