/-
A cursor over tokens, and the steps that a reader of formulas is made of. The
token `finish` is never left behind, and a list without it repeats its last token,
so there is always a token at hand. Each operator and operand is paid for out of
an allowance before it is taken. A failing step keeps the cursor, which therefore
still tells how many tokens were taken.
-/

import Tangency.Expr.Basic
import Tangency.Token.Basic

namespace Tangency

structure Cursor (α : Type) where
  front : Token α
  behind : List (Token α)
  /-- How many operators and operands may still be read. -/
  allowance : Nat
  /-- How often a token has been taken. -/
  taken : Nat

def Cursor.advanced {α : Type} (cursor : Cursor α) : Cursor α :=
  if cursor.front.isFinish then { cursor with taken := cursor.taken + 1 }
  else
    match cursor.behind with
    | [] => { cursor with taken := cursor.taken + 1 }
    | next :: behind =>
      { cursor with front := next, behind := behind, taken := cursor.taken + 1 }

abbrev Reader (α β : Type) : Type := EStateM (Failure α) (Cursor α) β

namespace Reader

variable {α β : Type}

def nodeLimit : Nat := 512

/-- How deeply formulas may be nested in one another; the whole formula counts as one. -/
def depthLimit : Nat := 256

def front : Reader α (Token α) := fun cursor => .ok cursor.front cursor

def allowance : Reader α Nat := fun cursor => .ok cursor.allowance cursor

def failWith (failure : Failure α) : Reader α β := fun cursor => .error failure cursor

def failHere (fault : Fault) : Reader α β :=
  fun cursor => .error (.malformed cursor.front.position fault) cursor

def failAt (token : Token α) (fault : Fault) : Reader α β :=
  failWith (.malformed token.position fault)

def take : Reader α (Token α) := fun cursor => .ok cursor.front cursor.advanced

def pay : Reader α Unit := fun cursor =>
  match cursor.allowance with
  | 0 => failHere (.tooLong nodeLimit) cursor
  | left + 1 => .ok () { cursor with allowance := left }

def payAndTake : Reader α (Token α) := do
  pay
  take

def takeClosing : Reader α Unit := do
  let token ← front
  match token.kind with
  | .closing => let _ ← take
  | _ => failAt token (.closingMissing token.found)

end Reader

end Tangency
