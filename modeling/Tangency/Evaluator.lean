/-
A program that is evaluated again and again. An evaluator keeps the workspace of
its last run and clears it at the next, so an evaluation returns the evaluator
with its new workspace. Runs over another scalar type use a workspace of their
own; over dual numbers they give the derivative without symbolic rules.
-/

import Tangency.Dual.Basic
import Tangency.Program

namespace Tangency

structure Evaluator (α : Type u) where
  program : Program α
  workspace : Workspace α

namespace Evaluator

variable {α : Type u}

def ofProgram (program : Program α) : Evaluator α := ⟨program, Workspace.empty⟩

def ofExpr (tree : Expr α) : Evaluator α := ofProgram tree.program

variable [Scalar α]

def evaluate (evaluator : Evaluator α) (point : α) : α × Evaluator α :=
  let (value, workspace) := evaluator.program.execute id point evaluator.workspace
  (value, { evaluator with workspace := workspace })

def evaluateAll (evaluator : Evaluator α) : List α → List α × Evaluator α
  | [] => ([], evaluator)
  | point :: points =>
    let (value, used) := evaluator.evaluate point
    let (values, last) := used.evaluateAll points
    (value :: values, last)

def evaluateOver {β : Type v} [Scalar β] (lift : α → β) (evaluator : Evaluator α) (point : β) : β :=
  (evaluator.program.execute lift point Workspace.empty).1

def forwardDerivative (evaluator : Evaluator α) (point : α) : α :=
  (evaluator.evaluateOver Dual.constant (Dual.seed point)).slope

end Evaluator

def isUsable {α : Type u} [Scalar α] (value : α) : Bool := Scalar.isFinite value

end Tangency
