/-
Running a program over dual numbers leaves the values alone.

A map of scalars that respects the operations of instructions may be applied before a run or
after it: the stacks agree after every instruction.  The value of a dual number is such a map,
since no rule lets a slope into a value, comparisons look at values only and a missing operand
is undefined in both types.

The programs are arbitrary, so an instruction may find too few values and a call may have any
number of arguments.  Nothing is assumed about the scalars either.  Over doubles the values are
therefore the same patterns, for NaN as well.
-/

import Tangency.Dual.Basic
import Tangency.Program

namespace Tangency

universe u v w

section ScalarMaps

variable {β : Type v} {γ : Type w} [Scalar β] [Scalar γ]

/-- The map respects what an instruction can do with scalars. -/
structure ScalarMap (project : β → γ) : Prop where
  undefined : project Scalar.undefined = Scalar.undefined
  negate (a : β) : project (-a) = -project a
  operate (operator : Operator) (a b : β) :
    project (operator.apply a b) = operator.apply (project a) (project b)
  applyOne (function : Elementary) (a : β) :
    project (function.applyOne a) = function.applyOne (project a)

namespace ScalarMap

variable {project : β → γ} (respects : ScalarMap project)

include respects

theorem apply (function : Elementary) (arguments : List β) :
    project (function.apply arguments) = function.apply (arguments.map project) := by
  match arguments with
  | [] => cases function <;> exact respects.undefined
  | [argument] =>
    rw [List.map_singleton, Elementary.apply_singleton, Elementary.apply_singleton]
    exact respects.applyOne function argument
  | [argument, base] =>
    cases function with
    | log =>
      have quotient := respects.operate .div (Scalar.ln argument) (Scalar.ln base)
      have upper : project (Scalar.ln argument) = Scalar.ln (project argument) :=
        respects.applyOne .ln argument
      have lower : project (Scalar.ln base) = Scalar.ln (project base) :=
        respects.applyOne .ln base
      rw [upper, lower] at quotient
      exact quotient
    | _ => exact respects.undefined
  | _ :: _ :: _ :: _ => cases function <;> exact respects.undefined

theorem popped_map (stack : List β) :
    popped (stack.map project) = (project (popped stack).1, (popped stack).2.map project) := by
  cases stack with
  | nil => exact congrArg (·, []) respects.undefined.symm
  | cons top below => rfl

variable {α : Type u} {lift : α → β} {lift' : α → γ}

theorem map_instruction_run (lifted : ∀ literal, project (lift literal) = lift' literal)
    (point : β) (instruction : Instruction α) (stack : List β) :
    (instruction.run lift point stack).map project =
      instruction.run lift' (project point) (stack.map project) := by
  cases instruction with
  | push literal => exact congrArg (· :: stack.map project) (lifted literal)
  | pushVar => rfl
  | operate operator =>
    simp only [Instruction.run, respects.popped_map, List.map_cons, respects.operate]
  | negate => simp only [Instruction.run, respects.popped_map, List.map_cons, respects.negate]
  | call function count =>
    simp only [Instruction.run, List.length_map]
    by_cases enough : count ≤ stack.length
    · rw [if_pos enough, if_pos enough, List.map_cons, respects.apply, List.map_reverse,
        List.map_take, List.map_drop]
    · rw [if_neg enough, if_neg enough, List.map_singleton, respects.undefined]

theorem map_program_run (lifted : ∀ literal, project (lift literal) = lift' literal)
    (point : β) (program : Program α) (stack : List β) :
    (program.run lift point stack).map project =
      program.run lift' (project point) (stack.map project) := by
  induction program generalizing stack with
  | nil => rfl
  | cons instruction later ih =>
    have step := respects.map_instruction_run lifted point instruction stack
    change (Program.run lift point later (instruction.run lift point stack)).map project =
      Program.run lift' (project point) later
        (instruction.run lift' (project point) (stack.map project))
    rw [ih, step]

theorem project_execute (lifted : ∀ literal, project (lift literal) = lift' literal)
    (point : β) (program : Program α) (workspace : Workspace β) (workspace' : Workspace γ) :
    project (program.execute lift point workspace).1 =
      (program.execute lift' (project point) workspace').1 := by
  have sameStack := respects.map_program_run lifted point program []
  change project (popped (program.run lift point [])).1 =
    (popped (program.run lift' (project point) [])).1
  rw [List.map_nil] at sameStack
  rw [← sameStack, respects.popped_map]

end ScalarMap

end ScalarMaps

variable {α : Type u} [Scalar α]

theorem Dual.value_pow (base exponent : Dual α) :
    (Dual.pow base exponent).value = Scalar.pow base.value exponent.value := by
  unfold Dual.pow
  split <;> rfl

/-- The sign of a dual number compares values, also with the zero and the one of dual numbers. -/
theorem Dual.value_sign (a : Dual α) : (Scalar.sign a).value = Scalar.sign a.value := by
  unfold Scalar.sign
  rw [apply_ite Dual.value, apply_ite Dual.value]
  rfl

theorem Dual.value_scalarMap : ScalarMap (Dual.value : Dual α → α) where
  undefined := rfl
  negate _ := rfl
  operate operator a b := by
    cases operator with
    | pow => exact Dual.value_pow a b
    | _ => rfl
  applyOne function a := by
    cases function with
    | sign => exact Dual.value_sign a
    | _ => rfl

/-- Dual numbers do not disturb what a program computes. After any number of instructions, the stack
of a run from a point with a slope is as high as that of the run over plain scalars, and its values
are the entries there; the result has the value of the plain result, whatever the workspaces of both
runs held before. -/
theorem dual_run_keeps_values (program : Program α) (point slope : α) :
    (∀ count,
      (Program.run Dual.constant ⟨point, slope⟩ (program.take count) []).length =
          (Program.run id point (program.take count) []).length ∧
        (Program.run Dual.constant ⟨point, slope⟩ (program.take count) []).map Dual.value =
          Program.run id point (program.take count) []) ∧
    ∀ (dualWorkspace : Workspace (Dual α)) (workspace : Workspace α),
      (program.execute Dual.constant ⟨point, slope⟩ dualWorkspace).1.value =
        (program.execute id point workspace).1 := by
  have lifted : ∀ literal : α, (Dual.constant literal).value = id literal := fun _ => rfl
  constructor
  · intro count
    have values :
        (Program.run Dual.constant ⟨point, slope⟩ (program.take count) []).map Dual.value =
          Program.run id point (program.take count) [] :=
      Dual.value_scalarMap.map_program_run lifted _ _ []
    refine ⟨?_, values⟩
    rw [← values, List.length_map]
  · intro dualWorkspace workspace
    exact Dual.value_scalarMap.project_execute lifted _ program dualWorkspace workspace

end Tangency
