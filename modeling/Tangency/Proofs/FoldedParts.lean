/-
What folding keeps, differentiation keeps.

A property of the parts of a tree is kept by folding if the literals that the rules of
differentiation bring in have it, and every folding constructor returns a tree that has it
throughout where the operands do.  A derivative is put together by these constructors from parts of
the tree and such literals, so it has the property throughout where the tree has it.

A property that looks only at literals, the variable and the number of arguments of a call is kept
without a look at the identities.
-/

import Tangency.Expr.Derivative
import Tangency.Proofs.Folding

namespace Tangency

universe u

namespace Expr

variable {α : Type u}

theorem throughoutAll_iff {property : Expr α → Prop} {arguments : List (Expr α)} :
    ThroughoutAll property arguments ↔ ∀ argument ∈ arguments, argument.Throughout property := by
  induction arguments with
  | nil => exact ⟨fun _ => nofun, fun _ => trivial⟩
  | cons argument arguments ih =>
    rw [List.forall_mem_cons, ← ih]
    exact Iff.rfl

variable [Scalar α]

def combined (operator : Operator) (left right : Expr α) : Expr α :=
  match operator with
  | .add => sum left right
  | .sub => difference left right
  | .mul => product left right
  | .div => quotient left right
  | .pow => power left right

/-- The literals that the rules of differentiation bring in. -/
def ruleLiterals : List α :=
  [Scalar.zero, Scalar.one, Scalar.two, Scalar.natural 3, Scalar.logOfTen]

/-- A property of parts that literals of the rules have, and that a folding constructor keeps
throughout its operands. -/
structure KeptByFolding (property : Expr α → Prop) : Prop where
  literal {literal : α} (brought : literal ∈ ruleLiterals) : property (number literal)
  negated {operand : Expr α} (everywhere : operand.Throughout property) :
    (negated operand).Throughout property
  combined (operator : Operator) {left right : Expr α} (first : left.Throughout property)
    (second : right.Throughout property) : (combined operator left right).Throughout property
  appliedTo (function : Elementary) {argument : Expr α}
    (everywhere : argument.Throughout property) :
    (appliedTo function argument).Throughout property

namespace KeptByFolding

variable {property : Expr α → Prop}

section Rules

variable (kept : KeptByFolding property)
include kept

variable {tree slope left leftSlope right rightSlope : Expr α}

theorem zero : Expr.zero.Throughout property := kept.literal List.mem_cons_self

theorem one : Expr.one.Throughout property :=
  kept.literal (List.mem_cons_of_mem _ List.mem_cons_self)

theorem squared (everywhere : tree.Throughout property) :
    (Expr.squared tree).Throughout property :=
  have two : (number Scalar.two).Throughout property := kept.literal (by simp [ruleLiterals])
  kept.combined .pow everywhere two

theorem quotientRule (first : left.Throughout property) (firstSlope : leftSlope.Throughout property)
    (second : right.Throughout property) (secondSlope : rightSlope.Throughout property) :
    (Expr.quotientRule left leftSlope right rightSlope).Throughout property := by
  have upper := kept.combined .mul firstSlope second
  have lower := kept.combined .mul first secondSlope
  exact kept.combined .div (kept.combined .sub upper lower) (kept.squared second)

theorem powerRule (base : left.Throughout property) (baseSlope : leftSlope.Throughout property)
    (exponent : right.Throughout property) (exponentSlope : rightSlope.Throughout property) :
    (Expr.powerRule left leftSlope right rightSlope).Throughout property := by
  have whole := kept.combined .pow base exponent
  have logarithm := kept.appliedTo .ln base
  unfold Expr.powerRule
  split
  · have reduced := kept.combined .pow base (kept.combined .sub exponent kept.one)
    exact kept.combined .mul (kept.combined .mul exponent reduced) baseSlope
  · split
    · exact kept.combined .mul (kept.combined .mul whole logarithm) exponentSlope
    · have ofExponent := kept.combined .mul exponentSlope logarithm
      have ofBase := kept.combined .div (kept.combined .mul exponent baseSlope) base
      exact kept.combined .mul whole (kept.combined .add ofExponent ofBase)

theorem operatorRule (operator : Operator) (first : left.Throughout property)
    (firstSlope : leftSlope.Throughout property) (second : right.Throughout property)
    (secondSlope : rightSlope.Throughout property) :
    (Expr.operatorRule operator left leftSlope right rightSlope).Throughout property := by
  cases operator with
  | add => exact kept.combined .add firstSlope secondSlope
  | sub => exact kept.combined .sub firstSlope secondSlope
  | mul =>
    exact kept.combined .add (kept.combined .mul firstSlope second)
      (kept.combined .mul first secondSlope)
  | div => exact kept.quotientRule first firstSlope second secondSlope
  | pow => exact kept.powerRule first firstSlope second secondSlope

theorem circleRoot (inner : tree.Throughout property) :
    (Expr.circleRoot tree).Throughout property :=
  kept.appliedTo .sqrt (kept.combined .sub kept.one (kept.squared inner))

theorem chainRule (function : Elementary) (inner : tree.Throughout property)
    (rate : slope.Throughout property) :
    (Expr.chainRule function tree slope).Throughout property := by
  cases function with
  | sin => exact kept.combined .mul (kept.appliedTo .cos inner) rate
  | cos => exact kept.combined .mul (kept.negated (kept.appliedTo .sin inner)) rate
  | tan => exact kept.combined .div rate (kept.squared (kept.appliedTo .cos inner))
  | asin => exact kept.combined .div rate (kept.circleRoot inner)
  | acos => exact kept.negated (kept.combined .div rate (kept.circleRoot inner))
  | atan => exact kept.combined .div rate (kept.combined .add kept.one (kept.squared inner))
  | sinh => exact kept.combined .mul (kept.appliedTo .cosh inner) rate
  | cosh => exact kept.combined .mul (kept.appliedTo .sinh inner) rate
  | tanh => exact kept.combined .div rate (kept.squared (kept.appliedTo .cosh inner))
  | exp => exact kept.combined .mul (kept.appliedTo .exp inner) rate
  | ln | log => exact kept.combined .div rate inner
  | log10 =>
    have ten : (number Scalar.logOfTen).Throughout property := kept.literal (by simp [ruleLiterals])
    exact kept.combined .div rate (kept.combined .mul inner ten)
  | sqrt =>
    have two : (number Scalar.two).Throughout property := kept.literal (by simp [ruleLiterals])
    exact kept.combined .div rate (kept.combined .mul two (kept.appliedTo .sqrt inner))
  | cbrt =>
    have three : (number (Scalar.natural 3)).Throughout property :=
      kept.literal (by simp [ruleLiterals])
    have root := kept.squared (kept.appliedTo .cbrt inner)
    exact kept.combined .div rate (kept.combined .mul three root)
  | abs => exact kept.combined .mul (kept.appliedTo .sign inner) rate
  | sign => exact kept.zero

theorem logarithmSlope (inner : tree.Throughout property) (rate : slope.Throughout property) :
    (Expr.logarithmSlope tree slope).Throughout property := by
  unfold Expr.logarithmSlope
  split
  · exact kept.zero
  · split
    · exact kept.zero
    · exact kept.combined .div rate inner

theorem baseRule (inner : left.Throughout property) (rate : leftSlope.Throughout property)
    (base : right.Throughout property) (baseRate : rightSlope.Throughout property) :
    (Expr.baseRule left leftSlope right rightSlope).Throughout property := by
  have upperSlope := kept.logarithmSlope inner rate
  unfold Expr.baseRule
  split
  · exact upperSlope
  · split
    · exact kept.zero
    · exact kept.quotientRule (kept.appliedTo .ln inner) upperSlope (kept.appliedTo .ln base)
        (kept.logarithmSlope base baseRate)

theorem callRule (function : Elementary) {arguments slopes : List (Expr α)}
    (inner : ThroughoutAll property arguments) (rates : ThroughoutAll property slopes) :
    (Expr.callRule function arguments slopes).Throughout property := by
  unfold Expr.callRule
  split
  · exact kept.baseRule inner.1 rates.1 inner.2.1 rates.2.1
  · split
    · exact kept.zero
    · exact kept.chainRule _ inner.1 rates.1
  · exact kept.zero

end Rules

mutual

theorem derivative (kept : KeptByFolding property) {tree : Expr α}
    (everywhere : tree.Throughout property) : tree.derivative.Throughout property := by
  match tree with
  | number literal => exact kept.zero
  | var => exact kept.one
  | neg operand => exact kept.negated (derivative kept everywhere.2)
  | binary operator left right =>
    exact kept.operatorRule operator everywhere.2.1 (derivative kept everywhere.2.1) everywhere.2.2
      (derivative kept everywhere.2.2)
  | call function arguments =>
    exact kept.callRule function everywhere.2 (derivativeAll kept everywhere.2)

theorem derivativeAll (kept : KeptByFolding property) {arguments : List (Expr α)}
    (everywhere : ThroughoutAll property arguments) :
    ThroughoutAll property (Expr.derivativeAll arguments) := by
  match arguments with
  | [] => exact trivial
  | argument :: others => exact ⟨derivative kept everywhere.1, derivativeAll kept everywhere.2⟩

end

theorem derivative_iterate (kept : KeptByFolding property) {tree : Expr α}
    (everywhere : tree.Throughout property) (order : Nat) :
    (Expr.derivative^[order] tree).Throughout property := by
  induction order generalizing tree with
  | zero => exact everywhere
  | succ order ih => exact ih (kept.derivative everywhere)

end KeptByFolding

/-! ### Properties indifferent to the identities -/

/-- Every negation, every operation and every call with one argument has the property, and so has
every literal that folding may leave. -/
structure Indifferent (property : Expr α → Prop) : Prop where
  literal {literal : α} (brought : literal ∈ ruleLiterals) : property (number literal)
  finite {literal : α} (finite : Scalar.isFinite literal = true) : property (number literal)
  opposite {literal : α} (holds : property (number literal)) : property (number (-literal))
  neg (operand : Expr α) : property (neg operand)
  binary (operator : Operator) (left right : Expr α) : property (binary operator left right)
  callOne (function : Elementary) (argument : Expr α) : property (call function [argument])

namespace Indifferent

variable {property : Expr α → Prop} {left right : Expr α}

theorem literalOr (indifferent : Indifferent property) (result : α) {unfolded : Expr α}
    (everywhere : unfolded.Throughout property) :
    (Expr.literalOr result unfolded).Throughout property := by
  unfold Expr.literalOr
  split
  · rename_i finite
    exact indifferent.finite finite
  · exact everywhere

theorem folded (indifferent : Indifferent property) (operator : Operator)
    (first : left.Throughout property) (second : right.Throughout property) :
    (Expr.folded operator left right).Throughout property := by
  have built : (Expr.binary operator left right).Throughout property :=
    ⟨indifferent.binary operator left right, first, second⟩
  unfold Expr.folded
  split
  · exact indifferent.literalOr _ built
  · exact built

theorem applied (indifferent : Indifferent property) {function : Elementary}
    {arguments : List (Expr α)} (holds : property (call function arguments))
    (everywhere : ThroughoutAll property arguments) :
    (Expr.applied function arguments).Throughout property := by
  unfold Expr.applied
  split
  · exact indifferent.literalOr _ ⟨holds, everywhere⟩
  · exact ⟨holds, everywhere⟩

theorem negated (indifferent : Indifferent property) (everywhere : left.Throughout property) :
    (Expr.negated left).Throughout property := by
  cases left with
  | number literal => exact indifferent.opposite everywhere
  | neg operand => exact everywhere.2
  | var => exact ⟨indifferent.neg _, everywhere⟩
  | binary => exact ⟨indifferent.neg _, everywhere⟩
  | call => exact ⟨indifferent.neg _, everywhere⟩

theorem product (indifferent : Indifferent property) (first : left.Throughout property)
    (second : right.Throughout property) : (Expr.product left right).Throughout property := by
  fun_induction Expr.product left right with
  | case1 => exact indifferent.literal List.mem_cons_self
  | case2 => exact second
  | case3 => exact first
  | case4 _ _ _ finite _ _ _ ih => exact ih (indifferent.finite finite) second.2.2
  | case5 => exact ⟨indifferent.binary _ _ _, first, second⟩
  | case6 => exact indifferent.folded .mul first second

theorem combined (indifferent : Indifferent property) (operator : Operator)
    (first : left.Throughout property) (second : right.Throughout property) :
    (Expr.combined operator left right).Throughout property := by
  cases operator with
  | add =>
    change (Expr.sum left right).Throughout property
    unfold Expr.sum
    split
    · exact second
    · split
      · exact first
      · exact indifferent.folded .add first second
  | sub =>
    change (Expr.difference left right).Throughout property
    unfold Expr.difference
    split
    · exact first
    · split
      · exact indifferent.negated second
      · exact indifferent.folded .sub first second
  | mul => exact indifferent.product first second
  | div =>
    change (Expr.quotient left right).Throughout property
    unfold Expr.quotient
    split
    · exact first
    · exact indifferent.folded .div first second
  | pow =>
    change (Expr.power left right).Throughout property
    unfold Expr.power
    split
    · exact first
    · split
      · exact indifferent.literal (List.mem_cons_of_mem _ List.mem_cons_self)
      · exact indifferent.folded .pow first second

theorem keptByFolding (indifferent : Indifferent property) : KeptByFolding property where
  literal := indifferent.literal
  negated := indifferent.negated
  combined operator _ _ first second := indifferent.combined operator first second
  appliedTo function _ everywhere :=
    indifferent.applied (indifferent.callOne function _) ⟨everywhere, trivial⟩

end Indifferent

end Expr

end Tangency
