/-
What becomes of an operand that is missing.

An instruction that finds too few values takes them all and leaves its result as the only one.  The
operand that was missing is undefined, and so is the result, unless the instruction is a power with
exponent zero.  From there on the lowest value of the stack stays undefined: instructions work on
it or above it, and what they make of it is undefined again, but for a power that raises it to zero.

So a run that came short ends with an undefined value if no such power followed and nothing else
was left on the stack.  Neither condition can be dropped: a value that is pushed later and not used
stands above the undefined one, and NaN to the power of zero is one.
-/

import Tangency.Proofs.ConstantDerivative
import Tangency.Proofs.StackHeights

namespace Tangency

universe u v

section Spreading

variable {β : Type v} [Scalar β]

/-- A missing operand has the property, and a result has it if an operand has. A power need not have
it from its base if its exponent is zero, nor from its exponent. -/
structure Spreads (lost : β → Prop) : Prop where
  undefined : lost Scalar.undefined
  not_isZero {a : β} : lost a → Scalar.isEqual a Scalar.zero = false
  negate {a : β} : lost a → lost (-a)
  operate (operator : Operator) {a : β} (b : β) : lost a →
    (operator = .pow → Scalar.isEqual b Scalar.zero = false) → lost (operator.apply a b)
  applyOne (function : Elementary) {a : β} : lost a → lost (function.applyOne a)

variable {lost : β → Prop}

theorem Spreads.apply (spreads : Spreads lost) (function : Elementary) {first : β}
    (firstLost : lost first) (others : List β) : lost (function.apply (first :: others)) := by
  match others with
  | [] =>
    rw [Elementary.apply_singleton]
    exact spreads.applyOne function firstLost
  | [base] =>
    cases function with
    | log => exact spreads.operate .div (Scalar.ln base) (spreads.applyOne .ln firstLost) nofun
    | _ => exact spreads.undefined
  | _ :: _ :: _ => cases function <;> exact spreads.undefined

end Spreading

variable {α : Type u} {β : Type v} [Scalar β]

/-- A power with exponent zero that takes the lowest value of the stack as its base, or finds
none. -/
def Instruction.Erases (instruction : Instruction α) (stack : List β) : Prop :=
  instruction = .operate .pow ∧ stack.length ≤ 2 ∧
    ∃ exponent ∈ stack.head?, Scalar.isEqual exponent Scalar.zero = true

def LostBelow (lost : β → Prop) (stack : List β) : Prop := ∃ lowest ∈ stack.getLast?, lost lowest

variable {lost : β → Prop}

omit [Scalar β] in
theorem LostBelow.cons {stack : List β} (below : LostBelow lost stack) (value : β) :
    LostBelow lost (value :: stack) := by
  obtain ⟨lowest, isLast, lowestLost⟩ := below
  cases stack with
  | nil => cases isLast
  | cons top stack => exact ⟨lowest, isLast, lowestLost⟩

theorem LostBelow.top {stack : List β} (below : LostBelow lost stack) (single : stack.length ≤ 1) :
    lost (popped stack).1 := by
  obtain ⟨lowest, isLast, lowestLost⟩ := below
  match stack with
  | [] => cases isLast
  | [top] =>
    cases isLast
    exact lowestLost

namespace Spreads

variable (spreads : Spreads lost)

include spreads

theorem operate_step (lift : α → β) (point : β) (operator : Operator) {stack : List β}
    (cause : LostBelow lost stack ∨ stack.length < 2)
    (spared : ¬(.operate operator : Instruction α).Erases stack) :
    LostBelow lost ((.operate operator : Instruction α).run lift point stack) := by
  have nonzero (exponent : β) (top : exponent ∈ stack.head?) (short : stack.length ≤ 2)
      (isPower : operator = .pow) : Scalar.isEqual exponent Scalar.zero = false := by
    rw [← Bool.not_eq_true]
    intro isZero
    exact spared ⟨congrArg _ isPower, short, exponent, top, isZero⟩
  match stack with
  | [] =>
    exact ⟨_, rfl, spreads.operate operator _ spreads.undefined
      fun _ => spreads.not_isZero spreads.undefined⟩
  | [right] =>
    exact ⟨_, rfl, spreads.operate operator right spreads.undefined
      (nonzero right rfl (Nat.le_succ 1))⟩
  | [right, left] =>
    have leftLost : lost left := by
      rcases cause with ⟨lowest, isLast, lowestLost⟩ | short
      · cases isLast
        exact lowestLost
      · exact absurd short (Nat.lt_irrefl 2)
    exact ⟨_, rfl, spreads.operate operator right leftLost (nonzero right rfl (Nat.le_refl 2))⟩
  | _ :: _ :: low :: below =>
    rcases cause with ⟨lowest, isLast, lowestLost⟩ | short
    · exact ⟨lowest, isLast, lowestLost⟩
    · simp only [List.length_cons] at short
      omega

theorem negate_step (lift : α → β) (point : β) {stack : List β}
    (cause : LostBelow lost stack ∨ stack.length < 1) :
    LostBelow lost ((.negate : Instruction α).run lift point stack) := by
  match stack with
  | [] => exact ⟨_, rfl, spreads.negate spreads.undefined⟩
  | [operand] =>
    rcases cause with ⟨lowest, isLast, lowestLost⟩ | short
    · cases isLast
      exact ⟨_, rfl, spreads.negate lowestLost⟩
    · exact absurd short (Nat.lt_irrefl 1)
  | _ :: low :: below =>
    rcases cause with ⟨lowest, isLast, lowestLost⟩ | short
    · exact ⟨lowest, isLast, lowestLost⟩
    · simp only [List.length_cons] at short
      omega

/-- One call. The lowest value is the first argument of a call that takes all there are, and a call
that finds too few leaves nothing but an undefined value. -/
theorem call_step (lift : α → β) (point : β) (function : Elementary) {count : Nat} {stack : List β}
    (cause : LostBelow lost stack ∨ stack.length < count) :
    LostBelow lost ((.call function count : Instruction α).run lift point stack) := by
  rw [Instruction.run]
  split
  · rename_i enough
    obtain ⟨lowest, isLast, lowestLost⟩ := cause.resolve_right (Nat.not_lt_of_le enough)
    by_cases all : stack.length ≤ count
    · rw [List.take_of_length_le all, List.drop_eq_nil_of_le all]
      obtain ⟨above, rfl⟩ := List.getLast?_eq_some_iff.mp isLast
      refine ⟨_, rfl, ?_⟩
      rw [List.reverse_append]
      exact spreads.apply function lowestLost above.reverse
    · have remains : LostBelow lost (stack.drop count) := by
        refine ⟨lowest, ?_, lowestLost⟩
        rw [List.getLast?_drop, if_neg all]
        exact isLast
      exact remains.cons _
  · exact ⟨_, rfl, spreads.undefined⟩

theorem instruction_step (lift : α → β) (point : β) (instruction : Instruction α) {stack : List β}
    (cause : LostBelow lost stack ∨ stack.length < instruction.operands)
    (spared : ¬instruction.Erases stack) :
    LostBelow lost (instruction.run lift point stack) := by
  cases instruction with
  | push literal => exact (cause.resolve_right (Nat.not_lt_zero _)).cons _
  | pushVar => exact (cause.resolve_right (Nat.not_lt_zero _)).cons _
  | operate operator => exact spreads.operate_step lift point operator cause spared
  | negate => exact spreads.negate_step lift point cause
  | call function count => exact spreads.call_step lift point function cause

end Spreads

namespace Program

/-- None of the instructions of a run raises the lowest value, or a missing one, to zero. -/
def Spares (lift : α → β) (point : β) : List β → Program α → Prop
  | _, [] => True
  | stack, instruction :: later =>
    ¬instruction.Erases stack ∧ Spares lift point (instruction.run lift point stack) later

end Program

namespace Spreads

variable (spreads : Spreads lost)

include spreads

theorem program_run (lift : α → β) (point : β) {program : Program α} {stack : List β}
    (below : LostBelow lost stack) (spared : Program.Spares lift point stack program) :
    LostBelow lost (program.run lift point stack) := by
  induction program generalizing stack with
  | nil => exact below
  | cons instruction later ih =>
    exact ih (spreads.instruction_step lift point instruction (.inl below) spared.1) spared.2

theorem short_run (lift : α → β) (point : β) {first later : Program α}
    {instruction : Instruction α} {stack : List β}
    (short : (first.run lift point stack).length < instruction.operands)
    (spared : Program.Spares lift point (first.run lift point stack) (instruction :: later)) :
    LostBelow lost (Program.run lift point (first ++ instruction :: later) stack) := by
  have fallen := spreads.instruction_step lift point instruction (.inr short) spared.1
  have last := spreads.program_run lift point fallen spared.2
  rw [Program.run_append]
  exact last

end Spreads

/-! ### NaN -/

namespace Binary64

theorem isNaN_settled (operands : List Binary64) :
    (settled operands ⟨.pack .notANumber⟩).isNaN = true := by
  rw [settled_notANumber]
  exact isNaN_undefinedAt operands

variable {x : Binary64} (undefined : x.isNaN = true)

include undefined

theorem isEqual_zero_of_isNaN : isEqual x zero = false := by
  change x.unpacked.beq (.zero .positive) = false
  rw [unpacked_of_isNaN undefined]
  rfl

theorem isNaN_neg : (-x).isNaN = true := by
  rw [isNaN_iff, magnitudeBits_neg]
  exact x.isNaN_iff.mp undefined

theorem isNaN_abs : x.abs.isNaN = true := by
  rw [isNaN_iff, abs, magnitudeBits_ofMagnitudeBits _ x.magnitudeBits_lt]
  exact x.isNaN_iff.mp undefined

theorem isNaN_raised {exponent : Binary64} (nonzero : isEqual exponent zero = false) :
    (raised x exponent).isNaN = true := by
  have notOne : ¬(exponent.magnitudeBits = 0 ∨ x = one) := by
    rintro (nothing | rfl)
    · rw [exponent.isEqual_zero_iff.mpr (isZero_of_magnitudeBits nothing)] at nonzero
      cases nonzero
    · exact absurd undefined (by decide)
  rw [raised, if_neg notOne, if_pos (.inl undefined)]
  exact isNaN_undefinedAt [x, exponent]

theorem isNaN_operate (operator : Operator) {y : Binary64}
    (spared : operator = .pow → isEqual y zero = false) : (operator.apply x y).isNaN = true := by
  have operand := unpacked_of_isNaN undefined
  cases operator with
  | add =>
    rw [Operator.apply, add_eq, operand]
    exact isNaN_settled [x, y]
  | sub =>
    rw [Operator.apply, sub_eq, operand]
    exact isNaN_settled [x, y]
  | mul =>
    rw [Operator.apply, mul_eq, operand]
    exact isNaN_settled [x, y]
  | div =>
    rw [Operator.apply, div_eq, operand]
    exact isNaN_settled [x, y]
  | pow => exact isNaN_raised undefined (spared rfl)

/-- The sign of a value that is neither above nor below zero is a product with it. -/
theorem isNaN_sign : (Scalar.sign x).isNaN = true := by
  have notAbove : Scalar.isLess Scalar.zero x = false := by
    rw [scalar_zero_eq]
    change decide (decide (Float.Model.UnpackedFloat.lt (.zero .positive) x.unpacked)) = false
    rw [unpacked_of_isNaN undefined]
    rfl
  have notBelow : Scalar.isLess x Scalar.zero = false := by
    rw [scalar_zero_eq]
    change decide (decide (x.unpacked.lt (.zero .positive))) = false
    rw [unpacked_of_isNaN undefined]
    rfl
  rw [Scalar.sign, notAbove, notBelow]
  exact isNaN_operate undefined .mul nofun

theorem isNaN_applyOne (function : Elementary) : (function.applyOne x).isNaN = true := by
  have lifted (function : Float → Float) : (unary function x).isNaN = true := by
    rw [unary, if_pos undefined]
    exact undefined
  cases function with
  | abs => exact isNaN_abs undefined
  | sign => exact isNaN_sign undefined
  | _ => exact lifted _

omit undefined in
theorem isNaN_spreads : Spreads fun x : Binary64 => x.isNaN = true where
  undefined := by decide
  not_isZero undefined := by
    rw [scalar_zero_eq]
    exact isEqual_zero_of_isNaN undefined
  negate := isNaN_neg
  operate operator _ b undefined spared := by
    rw [scalar_zero_eq] at spared
    exact isNaN_operate undefined operator spared
  applyOne function _ undefined := isNaN_applyOne undefined function

end Binary64

/-- Over doubles, a run that ends on an empty stack gives NaN. So does a run that comes short: from
an instruction that finds too few values on, if no power raises the lowest value or a missing one to
zero, the lowest value on the stack at the end is NaN, and it is the result if nothing else is left
there. -/
theorem missing_operand_stays_lowest (program : Program Binary64) (point : Binary64)
    (workspace : Workspace Binary64) :
    (program.run id point [] = [] → (program.execute id point workspace).1.isNaN = true) ∧
    ∀ first instruction later, program = first ++ instruction :: later →
      (Program.run id point first []).length < instruction.operands →
      Program.Spares id point (Program.run id point first []) (instruction :: later) →
        LostBelow (fun x => x.isNaN = true) (program.run id point []) ∧
          ((program.run id point []).length ≤ 1 →
            (program.execute id point workspace).1.isNaN = true) := by
  constructor
  · intro nothing
    change (popped (program.run id point [])).1.isNaN = true
    rw [nothing]
    decide
  · rintro first instruction later rfl short spared
    have below := Binary64.isNaN_spreads.short_run id point short spared
    exact ⟨below, below.top⟩

/-- A power that does not erase: the sum lacks an operand, and its square is taken. -/
theorem missing_operand_stays_lowest_squaredSum :
    (Program.execute id .one
      ([.pushVar, .operate .add, .push (.ofNat 2), .operate .pow] : Program Binary64)
      .empty).1.isNaN = true := by
  have squared := missing_operand_stays_lowest
    [.pushVar, .operate .add, .push (.ofNat 2), .operate .pow] .one .empty
  refine (squared.2 [.pushVar] (.operate .add) [.push (.ofNat 2), .operate .pow] rfl (by decide)
    ⟨?_, ?_, ?_, trivial⟩).2 (by decide)
  · rintro ⟨isPower, -⟩
    cases isPower
  · rintro ⟨isPower, -⟩
    cases isPower
  · rintro ⟨-, -, exponent, top, isZero⟩
    cases top
    exact absurd isZero (by decide)

/-- A value pushed above a sum without operands is the result, and so is the one that comes from
raising a missing base to zero. -/
theorem missing_operand_is_passed_over :
    (¬Program.Supplied (fun _ => True) id .zero []
        ([.operate .add, .push .one] : Program Binary64) ∧
      (Program.execute id .zero ([.operate .add, .push .one] : Program Binary64)
        .empty).1.isNaN = false) ∧
    (¬Program.Supplied (fun _ => True) id .zero []
        ([.push .zero, .operate .pow] : Program Binary64) ∧
      (Program.execute id .zero ([.push .zero, .operate .pow] : Program Binary64)
        .empty).1.isNaN = false) := by
  refine ⟨⟨fun supplied => ?_, by decide⟩, fun supplied => ?_, by decide⟩
  · exact absurd (supplied.1 trivial) (by decide)
  · exact absurd (supplied.2.1 trivial) (by decide)

end Tangency
