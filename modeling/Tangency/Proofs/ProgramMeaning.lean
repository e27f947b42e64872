/-
What the instructions of a tree do on the stack machine.

Run on any stack and in front of any instructions, the program of a tree puts the
value of the tree on top and leaves everything below alone.  A whole run therefore
returns the value and an empty workspace, whatever the workspace held before, and
an evaluator answers alike before and after any evaluations.

Programs that do not come from a tree are not treated here.
-/

import Tangency.Evaluator

namespace Tangency

universe u v

namespace Expr

variable {α : Type u} {β : Type v} [Scalar β]

theorem length_valueAll (lift : α → β) (point : β) (arguments : List (Expr α)) :
    (valueAll lift point arguments).length = arguments.length := by
  rw [valueAll_eq_map, List.length_map]

theorem run_call_reverse (lift : α → β) (point : β) (function : Elementary)
    (values below : List β) :
    (Instruction.call function values.length : Instruction α).run lift point
        (values.reverse ++ below) =
      function.apply values :: below := by
  have enough : values.length ≤ (values.reverse ++ below).length := by
    rw [List.length_append, List.length_reverse]
    omega
  have taken : (values.reverse ++ below).take values.length = values.reverse := by
    rw [← List.length_reverse, List.take_left]
  have left : (values.reverse ++ below).drop values.length = below := by
    rw [← List.length_reverse, List.drop_left]
  simp only [Instruction.run, if_pos enough, taken, left, List.reverse_reverse]

mutual

theorem run_program_append (lift : α → β) (point : β) (tree : Expr α) (later : Program α)
    (stack : List β) :
    Program.run lift point (tree.program ++ later) stack =
      Program.run lift point later (tree.value lift point :: stack) := by
  match tree with
  | number literal => rfl
  | var => rfl
  | neg operand =>
    rw [program, List.append_assoc, run_program_append lift point operand]
    rfl
  | binary operator left right =>
    rw [program, List.append_assoc, run_program_append lift point left, List.append_assoc,
      run_program_append lift point right]
    rfl
  | call function arguments =>
    rw [program, List.append_assoc, run_programAll_append lift point arguments,
      ← length_valueAll lift point]
    change Program.run lift point later (Instruction.run lift point _ _) = _
    rw [run_call_reverse]
    rfl

theorem run_programAll_append (lift : α → β) (point : β) (arguments : List (Expr α))
    (later : Program α) (stack : List β) :
    Program.run lift point (programAll arguments ++ later) stack =
      Program.run lift point later ((valueAll lift point arguments).reverse ++ stack) := by
  match arguments with
  | [] => rfl
  | argument :: others =>
    rw [programAll, List.append_assoc, run_program_append lift point argument,
      run_programAll_append lift point others, valueAll, List.reverse_cons, List.append_assoc]
    rfl

end

theorem execute_program (lift : α → β) (point : β) (tree : Expr α) (workspace : Workspace β) :
    tree.program.execute lift point workspace = (tree.value lift point, Workspace.empty) := by
  have run : Program.run lift point tree.program [] = [tree.value lift point] := by
    have generalRun := run_program_append lift point tree [] []
    rw [List.append_nil] at generalRun
    exact generalRun
  change Workspace.taken ⟨Program.run lift point tree.program []⟩ = _
  rw [run]
  rfl

end Expr

namespace Evaluator

variable {α : Type u} {β : Type v}

/-- An evaluator of the tree, whatever its last run left in the workspace. -/
def Serves (evaluator : Evaluator α) (tree : Expr α) : Prop := evaluator.program = tree.program

theorem Serves.evaluateOver_eq [Scalar β] {evaluator : Evaluator α} {tree : Expr α}
    (serves : evaluator.Serves tree) (lift : α → β) (point : β) :
    evaluator.evaluateOver lift point = tree.value lift point := by
  rw [evaluateOver, serves, Expr.execute_program]

variable [Scalar α]

theorem Serves.evaluate_step {evaluator : Evaluator α} {tree : Expr α}
    (serves : evaluator.Serves tree) (point : α) :
    (evaluator.evaluate point).1 = tree.value id point ∧
      (evaluator.evaluate point).2.Serves tree := by
  constructor
  · change (evaluator.program.execute id point evaluator.workspace).1 = _
    rw [serves, Expr.execute_program]
  · exact serves

theorem Serves.evaluateAll_run {tree : Expr α} (points : List α) {evaluator : Evaluator α}
    (serves : evaluator.Serves tree) :
    (evaluator.evaluateAll points).1 = points.map (tree.value id) ∧
      (evaluator.evaluateAll points).2.Serves tree := by
  induction points generalizing evaluator with
  | nil => exact ⟨rfl, serves⟩
  | cons point points ih =>
    obtain ⟨first, still⟩ := serves.evaluate_step point
    obtain ⟨others, last⟩ := ih still
    refine ⟨?_, last⟩
    change (evaluator.evaluate point).1 ::
      ((evaluator.evaluate point).2.evaluateAll points).1 = _
    rw [first, others, List.map_cons]

end Evaluator

/-- The program of a tree computes the value of the tree: in front of any instructions and on any
stack, as a whole run in any workspace, and through an evaluator after any evaluations. -/
theorem program_computes_value {α : Type u} (tree : Expr α) :
    (∀ {β : Type v} [Scalar β] (lift : α → β) (point : β) (later : Program α) (stack : List β),
      Program.run lift point (tree.program ++ later) stack =
        Program.run lift point later (tree.value lift point :: stack)) ∧
    (∀ {β : Type v} [Scalar β] (lift : α → β) (point : β) (workspace : Workspace β),
      tree.program.execute lift point workspace = (tree.value lift point, Workspace.empty)) ∧
    (∀ [Scalar α] (workspace : Workspace α) (history : List α) (point : α),
      (((⟨tree.program, workspace⟩ : Evaluator α).evaluateAll history).2.evaluate point).1 =
          tree.value id point ∧
        ((⟨tree.program, workspace⟩ : Evaluator α).evaluateAll history).2.evaluateOver id point =
          tree.value id point) := by
  refine ⟨?_, ?_, ?_⟩
  · intro β _ lift point later stack
    exact Expr.run_program_append lift point tree later stack
  · intro β _ lift point workspace
    exact Expr.execute_program lift point tree workspace
  · intro _ workspace history point
    have fresh : (⟨tree.program, workspace⟩ : Evaluator α).Serves tree := rfl
    have used := (fresh.evaluateAll_run history).2
    exact ⟨(used.evaluate_step point).1, used.evaluateOver_eq id point⟩

end Tangency
