/-
Reading a formula from tokens, by this grammar, loosest operators first:

  sum     := product (('+' | '-') product)*
  product := unary (('*' | '/') unary)*
  unary   := '-' unary | power
  power   := operand ('^' unary)?
  operand := NUMBER | 'x' | 'pi' | 'e' | NAME '(' sum (',' sum)* ')' | '(' sum ')'

The tree has the shape of the text; nothing is folded. Each parenthesised group, argument,
operand of a minus and exponent is read one level deeper than what it stands in.
A level is built from the one below it, and the lowest refuses to read, so the
recursion is on the number of levels left. Repetitions run on the allowance of
nodes, each round of which pays for at least one.
-/

import Tangency.Expr.Cursor
import Tangency.Token.Scan

namespace Tangency

namespace Reader

variable {α : Type}

/-- Continues a chain of operators of one kind to the right of what was read, grouping to the
left. Each round pays for its operator, so the allowance bounds the rounds. -/
def chainFrom (operator? : Token α → Option Operator) (operand : Reader α (Expr α)) :
    Nat → Expr α → Reader α (Expr α)
  | 0, left => pure left
  | rounds + 1, left => do
    match operator? (← front) with
    | none => pure left
    | some operator =>
      let _ ← payAndTake
      let right ← operand
      chainFrom operator? operand rounds (.binary operator left right)

def chain (operator? : Token α → Option Operator) (operand : Reader α (Expr α)) :
    Reader α (Expr α) := do
  let first ← operand
  chainFrom operator? operand ((← allowance) + 1) first

/-- The arguments behind the first, each with the comma in front of it. An argument pays for at
least one operand, so the allowance bounds the rounds. -/
def laterArguments (argument : Reader α (Expr α)) : Nat → Reader α (List (Expr α))
  | 0 => pure []
  | rounds + 1 => do
    match (← front).kind with
    | .comma =>
      let _ ← take
      let next ← argument
      return next :: (← laterArguments argument rounds)
    | _ => pure []

def arguments (argument : Reader α (Expr α)) : Reader α (List (Expr α)) := do
  let first ← argument
  return first :: (← laterArguments argument ((← allowance) + 1))

/-- The readers of one level that deeper readers are entered through. -/
structure Level (α : Type) where
  unary : Reader α (Expr α)
  sum : Reader α (Expr α)

def additive? (token : Token α) : Option Operator :=
  match token.symbol? with
  | some '+' => some .add
  | some '-' => some .sub
  | _ => none

def multiplicative? (token : Token α) : Option Operator :=
  match token.symbol? with
  | some '*' => some .mul
  | some '/' => some .div
  | _ => none

def call (argument : Reader α (Expr α)) (token : Token α) : Reader α (Expr α) := do
  match Elementary.ofName? token.text with
  | none => failWith (.unknownFunction token.text)
  | some function =>
    let _ ← take
    let given ← arguments argument
    takeClosing
    if function.acceptsCount given.length then return .call function given
    else failAt token (.wrongCount function given.length)

variable [Numeral α]

def bareName (token : Token α) : Reader α (Expr α) :=
  match Numeral.constant? token.text with
  | some literal => pure (.number literal)
  | none =>
    if (Elementary.ofName? token.text).isSome then failAt token (.bareFunction token.text)
    else failAt token (.unknownIdentifier token.text)

/-- What a name stands for. The variable is itself even in front of a parenthesis. -/
def named (argument : Reader α (Expr α)) (token : Token α) : Reader α (Expr α) := do
  let next ← front
  if token.text == Expr.variableName then return .var
  else
    match next.kind with
    | .opening => call argument token
    | _ => bareName token

/-- An operand without an operator at its top; `inner` reads a group or an argument. -/
def operand (inner : Reader α (Expr α)) : Reader α (Expr α) := do
  let token ← payAndTake
  match token.kind with
  | .number literal => return .number literal
  | .name => named inner token
  | .opening =>
    let group ← inner
    takeClosing
    return group
  | _ => failAt token (.operandMissing token.found)

/-- An operand with an optional exponent, which may begin with a minus and reaches to the right. -/
def power (inner : Level α) : Reader α (Expr α) := do
  let base ← operand inner.sum
  match (← front).symbol? with
  | some '^' =>
    let _ ← payAndTake
    return .binary .pow base (← inner.unary)
  | _ => return base

def unary (inner : Level α) : Reader α (Expr α) := do
  match (← front).symbol? with
  | some '-' =>
    let _ ← payAndTake
    return .neg (← inner.unary)
  | _ => power inner

def Level.above (inner : Level α) : Level α where
  unary := Reader.unary inner
  sum := chain additive? (chain multiplicative? (Reader.unary inner))

def level : Nat → Level α
  | 0 => ⟨failHere .nestedTooDeeply, failHere .nestedTooDeeply⟩
  | left + 1 => (level left).above

def formula : Reader α (Expr α) := do
  let tree ← (level depthLimit).sum
  let next ← front
  if next.isFinish then return tree
  else failAt next (.trailing next.found)

end Reader

namespace Expr

variable {α : Type} [Numeral α]

def readTokens (first : Token α) (behind : List (Token α)) :
    EStateM.Result (Failure α) (Cursor α) (Expr α) :=
  Reader.formula ⟨first, behind, Reader.nodeLimit, 0⟩

def ofTokens? (tokens : List (Token α)) : Except (Failure α) (Expr α) :=
  match tokens with
  | [] => .error (.malformed 0 .noTokens)
  | first :: behind =>
    match readTokens first behind with
    | .ok tree _ => .ok tree
    | .error failure _ => .error failure

def ofText? (source : String) : Except (Failure α) (Expr α) := do
  ofTokens? (← Token.scan source)

end Expr

end Tangency
