/-
Heights of the stack, counted and reached.

A program is counted without being run.  An instruction of a run takes as many of its operands as
there are and leaves one value, so the run is never lower than the count, and just as high as long
as operators find their operands.  Calls that find too few make no difference, for both the count
and the run go on at one.

The instructions of a tree find all that they take.  They reach the height that the tree needs, on
whatever they stand, and end one higher than they began.
-/

import Mathlib.Data.Finset.Lattice.Fold
import Mathlib.Order.Lattice.Nat
import Tangency.Proofs.ProgramMeaning

namespace Tangency

universe u v

namespace Instruction

variable {α : Type u}

def operands : Instruction α → Nat
  | push _ | pushVar => 0
  | operate _ => 2
  | negate => 1
  | call _ count => count

def isCall : Instruction α → Bool
  | call _ _ => true
  | _ => false

variable {β : Type v} [Scalar β]

theorem length_run (lift : α → β) (point : β) (instruction : Instruction α) (stack : List β) :
    (instruction.run lift point stack).length = stack.length - instruction.operands + 1 := by
  cases instruction with
  | operate operator =>
    match stack with
    | [] => rfl
    | [_] => rfl
    | _ :: _ :: below => rfl
  | negate => cases stack <;> rfl
  | call function count =>
    rw [run, operands]
    split
    · rw [List.length_cons, List.length_drop]
    · rename_i tooFew
      rw [List.length_singleton, Nat.sub_eq_zero_of_le (Nat.le_of_not_le tooFew)]
  | _ => rfl

end Instruction

namespace Program

variable {α : Type u} {β : Type v} [Scalar β]

theorem maxHeightFrom_eq_sup (height : Nat) (program : Program α) :
    maxHeightFrom height program = (Finset.range program.length).sup fun count =>
      (program.take (count + 1)).foldl heightAfter height := by
  induction program generalizing height with
  | nil => rfl
  | cons instruction later ih =>
    rw [maxHeightFrom, ih, List.length_cons, Finset.range_add_one', Finset.sup_insert,
      Finset.sup_map]
    rfl

theorem heightAfter_le {height available : Nat} (le : height ≤ available)
    (instruction : Instruction α) :
    heightAfter height instruction ≤ available - instruction.operands + 1 := by
  cases instruction <;> simp only [heightAfter, Instruction.operands] <;> omega

theorem heightAfter_eq {height : Nat} {instruction : Instruction α}
    (enough : instruction.isCall = false → instruction.operands ≤ height) :
    heightAfter height instruction = height - instruction.operands + 1 := by
  cases instruction with
  | operate operator =>
    have two : 2 ≤ height := enough rfl
    simp only [heightAfter, Instruction.operands]
    omega
  | negate =>
    have one : 1 ≤ height := enough rfl
    simp only [heightAfter, Instruction.operands]
    omega
  | _ => rfl

/-- The greatest height of the stack after an instruction of a run; zero for no instructions. -/
def reachedHeight (lift : α → β) (point : β) (program : Program α) : Nat :=
  (Finset.range program.length).sup fun count =>
    (run lift point (program.take (count + 1)) []).length

/-- Each instruction of a sort finds on the stack as many values as it takes. -/
def Supplied (sort : Instruction α → Prop) (lift : α → β) (point : β) : List β → Program α → Prop
  | _, [] => True
  | stack, instruction :: later =>
    (sort instruction → instruction.operands ≤ stack.length) ∧
      Supplied sort lift point (instruction.run lift point stack) later

variable {lift : α → β} {point : β} {sort : Instruction α → Prop}

theorem supplied_append {stack : List β} {first later : Program α} :
    Supplied sort lift point stack (first ++ later) ↔
      Supplied sort lift point stack first ∧
        Supplied sort lift point (run lift point first stack) later := by
  induction first generalizing stack with
  | nil => exact (and_iff_right trivial).symm
  | cons instruction first ih =>
    rw [List.cons_append, Supplied, ih, Supplied, and_assoc]
    rfl

theorem Supplied.take {stack : List β} {program : Program α}
    (supplied : Supplied sort lift point stack program) (count : Nat) :
    Supplied sort lift point stack (program.take count) := by
  rw [← List.take_append_drop count program] at supplied
  exact (supplied_append.mp supplied).1

theorem foldl_heightAfter_le (lift : α → β) (point : β) (program : Program α) {height : Nat}
    {stack : List β} (le : height ≤ stack.length) :
    program.foldl heightAfter height ≤ (run lift point program stack).length := by
  induction program generalizing height stack with
  | nil => exact le
  | cons instruction later ih =>
    have stepLe := heightAfter_le le instruction
    rw [← instruction.length_run lift point] at stepLe
    exact ih stepLe

theorem foldl_heightAfter_eq {program : Program α} {stack : List β}
    (supplied : Supplied (fun instruction => instruction.isCall = false) lift point stack program) :
    program.foldl heightAfter stack.length = (run lift point program stack).length := by
  induction program generalizing stack with
  | nil => rfl
  | cons instruction later ih =>
    obtain ⟨enough, laterSupplied⟩ := supplied
    rw [List.foldl_cons, heightAfter_eq enough, ← instruction.length_run lift point]
    exact ih laterSupplied

theorem maxHeight_le_reachedHeight (lift : α → β) (point : β) (program : Program α) :
    program.maxHeight ≤ program.reachedHeight lift point := by
  rw [maxHeight, maxHeightFrom_eq_sup]
  exact Finset.sup_mono_fun fun count _ => foldl_heightAfter_le lift point _ (Nat.le_refl 0)

/-- A lone operator counts for nothing and leaves a value all the same. -/
example (lift : α → β) (point : β) :
    maxHeight [(.operate .add : Instruction α)] = 0 ∧
      reachedHeight lift point [(.operate .add : Instruction α)] = 1 :=
  ⟨rfl, rfl⟩

theorem maxHeight_eq_reachedHeight {program : Program α}
    (supplied : Supplied (fun instruction => instruction.isCall = false) lift point [] program) :
    program.maxHeight = program.reachedHeight lift point := by
  rw [maxHeight, maxHeightFrom_eq_sup]
  exact Finset.sup_congr rfl fun count _ => foldl_heightAfter_eq (supplied.take (count + 1))

end Program

/-! ### What trees need -/

namespace Expr

variable {α : Type u}

mutual

/-- How high the stack grows above what a tree is evaluated on. A right operand stands on the value
of the left one, and an argument on those of the arguments before it. -/
def stackNeed : Expr α → Nat
  | number _ => 1
  | var => 1
  | neg operand => operand.stackNeed
  | binary _ left right => max left.stackNeed (1 + right.stackNeed)
  | call _ arguments => max 1 (stackNeedFrom 0 arguments)

def stackNeedFrom : Nat → List (Expr α) → Nat
  | _, [] => 0
  | before, argument :: arguments =>
    max (argument.stackNeed + before) (stackNeedFrom (before + 1) arguments)

end

theorem stackNeed_pos (tree : Expr α) : 0 < tree.stackNeed := by
  cases tree with
  | neg operand => exact operand.stackNeed_pos
  | binary _ left right => exact Nat.lt_of_lt_of_le left.stackNeed_pos (Nat.le_max_left _ _)
  | call _ arguments => exact Nat.lt_of_lt_of_le Nat.one_pos (Nat.le_max_left _ _)
  | _ => exact Nat.one_pos

/-- On a higher stack the arguments need as much more. Without arguments the limit takes part in
place of them. -/
theorem max_stackNeedFrom (height limit : Nat) (arguments : List (Expr α)) (before : Nat) :
    max (height + limit) (stackNeedFrom (height + before) arguments) =
      height + max limit (stackNeedFrom before arguments) := by
  induction arguments generalizing limit before with
  | nil =>
    simp only [stackNeedFrom]
    omega
  | cons argument arguments ih =>
    have shifted := ih (max limit (argument.stackNeed + before)) (before + 1)
    rw [← Nat.add_assoc] at shifted
    simp only [stackNeedFrom]
    omega

mutual

/-- The instructions of a tree count its need above the height that they begin at, and one value is
left for those behind them. -/
theorem maxHeightFrom_program_append (tree : Expr α) (height : Nat) (later : Program α) :
    Program.maxHeightFrom height (tree.program ++ later) =
      max (height + tree.stackNeed) (Program.maxHeightFrom (height + 1) later) := by
  match tree with
  | number _ => rfl
  | var => rfl
  | neg operand =>
    have needed := operand.stackNeed_pos
    rw [program, List.append_assoc, maxHeightFrom_program_append operand]
    simp only [List.singleton_append, Program.maxHeightFrom, Program.heightAfter, stackNeed]
    omega
  | binary operator left right =>
    have needed := right.stackNeed_pos
    rw [program, List.append_assoc, maxHeightFrom_program_append left, List.append_assoc,
      maxHeightFrom_program_append right]
    simp only [List.singleton_append, Program.maxHeightFrom, Program.heightAfter, stackNeed,
      Nat.add_sub_cancel]
    omega
  | call function arguments =>
    have shifted := max_stackNeedFrom height 1 arguments 0
    rw [Nat.add_zero height] at shifted
    rw [program, List.append_assoc, maxHeightFrom_programAll_append arguments]
    simp only [List.singleton_append, Program.maxHeightFrom, Program.heightAfter, stackNeed,
      Nat.add_sub_cancel]
    omega

theorem maxHeightFrom_programAll_append (arguments : List (Expr α)) (height : Nat)
    (later : Program α) :
    Program.maxHeightFrom height (programAll arguments ++ later) =
      max (stackNeedFrom height arguments)
        (Program.maxHeightFrom (height + arguments.length) later) := by
  match arguments with
  | [] => exact (Nat.zero_max _).symm
  | argument :: others =>
    rw [programAll, List.append_assoc, maxHeightFrom_program_append argument,
      maxHeightFrom_programAll_append others, stackNeedFrom, List.length_cons, Nat.max_assoc,
      Nat.add_comm height argument.stackNeed, Nat.add_assoc height 1, Nat.add_comm 1]

end

theorem maxHeight_program (tree : Expr α) : tree.program.maxHeight = tree.stackNeed := by
  have counted := maxHeightFrom_program_append tree 0 []
  rw [List.append_nil, Nat.zero_add] at counted
  exact counted.trans (Nat.max_zero _)

section Run

variable {β : Type v} [Scalar β]

theorem run_program (lift : α → β) (point : β) (tree : Expr α) (stack : List β) :
    Program.run lift point tree.program stack = tree.value lift point :: stack := by
  have pushed := run_program_append lift point tree [] stack
  rw [List.append_nil] at pushed
  exact pushed

theorem length_run_programAll (lift : α → β) (point : β) (arguments : List (Expr α))
    (stack : List β) :
    (Program.run lift point (programAll arguments) stack).length =
      arguments.length + stack.length := by
  have pushed := run_programAll_append lift point arguments [] stack
  rw [List.append_nil] at pushed
  rw [pushed]
  change ((valueAll lift point arguments).reverse ++ stack).length = _
  rw [List.length_append, List.length_reverse, length_valueAll]

mutual

theorem supplied_program (sort : Instruction α → Prop) (lift : α → β) (point : β) (tree : Expr α)
    (stack : List β) : Program.Supplied sort lift point stack tree.program := by
  match tree with
  | number _ => exact ⟨fun _ => Nat.zero_le _, trivial⟩
  | var => exact ⟨fun _ => Nat.zero_le _, trivial⟩
  | neg operand =>
    refine Program.supplied_append.mpr ⟨supplied_program sort lift point operand stack, ?_⟩
    rw [run_program]
    exact ⟨fun _ => Nat.succ_le_succ (Nat.zero_le _), trivial⟩
  | binary operator left right =>
    refine Program.supplied_append.mpr ⟨supplied_program sort lift point left stack, ?_⟩
    rw [run_program]
    refine Program.supplied_append.mpr ⟨supplied_program sort lift point right _, ?_⟩
    rw [run_program]
    exact ⟨fun _ => Nat.succ_le_succ (Nat.succ_le_succ (Nat.zero_le _)), trivial⟩
  | call function arguments =>
    refine Program.supplied_append.mpr ⟨supplied_programAll sort lift point arguments stack, ?_⟩
    refine ⟨fun _ => ?_, trivial⟩
    rw [length_run_programAll]
    exact Nat.le_add_right _ _

theorem supplied_programAll (sort : Instruction α → Prop) (lift : α → β) (point : β)
    (arguments : List (Expr α)) (stack : List β) :
    Program.Supplied sort lift point stack (programAll arguments) := by
  match arguments with
  | [] => exact trivial
  | argument :: others =>
    exact Program.supplied_append.mpr ⟨supplied_program sort lift point argument stack,
      supplied_programAll sort lift point others _⟩

end

end Run

end Expr

/-- The greatest counted height is never more than what a run reaches, whatever the instructions,
and equal to it if every operator and every negation of the run finds its operands; calls may find
too few. In the program of a tree every instruction finds what it takes, calls among them, one value
is left, and the greatest height is the need of the tree. -/
theorem counted_height_is_reached {α : Type u} {β : Type v} [Scalar β] (lift : α → β) (point : β) :
    (∀ program : Program α,
      program.maxHeight ≤ program.reachedHeight lift point ∧
        (Program.Supplied (fun instruction => instruction.isCall = false) lift point [] program →
          program.maxHeight = program.reachedHeight lift point)) ∧
    (∀ tree : Expr α,
      (∀ sort, Program.Supplied sort lift point [] tree.program) ∧
        (Program.run lift point tree.program []).length = 1 ∧
          tree.program.maxHeight = tree.stackNeed) := by
  constructor
  · intro program
    exact ⟨program.maxHeight_le_reachedHeight lift point, Program.maxHeight_eq_reachedHeight⟩
  · intro tree
    refine ⟨fun sort => tree.supplied_program sort lift point [], ?_, tree.maxHeight_program⟩
    rw [Expr.run_program]
    rfl

end Tangency
