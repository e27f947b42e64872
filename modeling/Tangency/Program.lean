/-
Formulas as instructions for a stack. A tree becomes its instructions in
post-order; a run over any scalar type leaves the value on top. The machine is
total: a missing operand is undefined, and a call that finds too few values
empties the stack and leaves one undefined value. Heights are those of the stack,
counted without running the instructions.
-/

import Tangency.Expr.Basic

namespace Tangency

inductive Instruction (α : Type u) where
  | push (literal : α)
  | pushVar
  /-- Replaces the two values on top, the right operand above the left. -/
  | operate (operator : Operator)
  | negate
  /-- Replaces a number of values, the last argument on top, by the value of a function. -/
  | call (function : Elementary) (count : Nat)
  deriving Repr

abbrev Program (α : Type u) := List (Instruction α)

/-- The values that a run works on, the top first. It is handed from run to run. -/
structure Workspace (β : Type u) where
  stack : List β

namespace Workspace

def empty {β : Type u} : Workspace β := ⟨[]⟩

def cleared {β : Type u} (workspace : Workspace β) : Workspace β := { workspace with stack := [] }

end Workspace

section Run

variable {α : Type u} {β : Type v} [Scalar β]

/-- The value on top and what is below; undefined on an empty stack. -/
def popped : List β → β × List β
  | [] => (Scalar.undefined, [])
  | top :: below => (top, below)

def Instruction.run (lift : α → β) (point : β) (instruction : Instruction α) (stack : List β) :
    List β :=
  match instruction with
  | push literal => lift literal :: stack
  | pushVar => point :: stack
  | operate operator =>
    operator.apply (popped (popped stack).2).1 (popped stack).1 :: (popped (popped stack).2).2
  | negate => -(popped stack).1 :: (popped stack).2
  | call function count =>
    if count ≤ stack.length then
      function.apply (stack.take count).reverse :: stack.drop count
    else [Scalar.undefined]

def Workspace.taken (workspace : Workspace β) : β × Workspace β :=
  ((popped workspace.stack).1, ⟨(popped workspace.stack).2⟩)

namespace Program

def run (lift : α → β) (point : β) (program : Program α) (stack : List β) : List β :=
  program.foldl (fun current instruction => instruction.run lift point current) stack

/-- A whole run, whatever an earlier one left behind: the value on top at the end, which is taken
off, and the workspace. -/
def execute (lift : α → β) (point : β) (program : Program α) (workspace : Workspace β) :
    β × Workspace β :=
  Workspace.taken ⟨program.run lift point workspace.cleared.stack⟩

theorem run_append (lift : α → β) (point : β) (first second : Program α) (stack : List β) :
    run lift point (first ++ second) stack = run lift point second (run lift point first stack) :=
  List.foldl_append

end Program

end Run

namespace Program

variable {α : Type u}

/-- The height after an instruction; taking more than there is leaves nothing. -/
def heightAfter (height : Nat) : Instruction α → Nat
  | .push _ | .pushVar => height + 1
  | .operate _ => height - 1
  | .negate => height
  | .call _ count => height - count + 1

def maxHeightFrom : Nat → Program α → Nat
  | _, [] => 0
  | height, instruction :: later =>
    max (heightAfter height instruction) (maxHeightFrom (heightAfter height instruction) later)

def maxHeight (program : Program α) : Nat := maxHeightFrom 0 program

end Program

namespace Expr

variable {α : Type u}

mutual

def program : Expr α → Program α
  | number literal => [.push literal]
  | var => [.pushVar]
  | neg operand => operand.program ++ [.negate]
  | binary operator left right => left.program ++ (right.program ++ [.operate operator])
  | call function arguments => programAll arguments ++ [.call function arguments.length]

def programAll : List (Expr α) → Program α
  | [] => []
  | argument :: arguments => argument.program ++ programAll arguments

end

end Expr

end Tangency
