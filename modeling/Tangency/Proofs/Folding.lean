/-
Folding keeps what a tree denotes.

Each folding constructor is given operands that denote numbers and returns a tree that
denotes the number its operation has on them.  The conditions are asked of the built
operation only, so powers with an exponent one or zero and calls on literals need none.
Powers are assumed to satisfy `a ^ 0 = 1` and `a ^ 1 = a`.
-/

import Tangency.Proofs.Denotation

namespace Tangency

universe u

/-- Powers with exponents zero and one are defined and as expected. -/
class LawfulPow (K : Type u) [Field K] [ExactMeaning K] : Prop where
  pow_zero (base : K) : ExactMeaning.pow base 0 = .known 1
  pow_one (base : K) : ExactMeaning.pow base 1 = .known base

namespace Expr

variable {α : Type u} {tree left right : Expr α}

theorem isConstant_call_singleton (function : Elementary) :
    (call function [tree]).isConstant = tree.isConstant := by
  rw [isConstant, isConstantAll, isConstantAll, Bool.and_true]

theorem isConstant_call_pair (function : Elementary) :
    (call function [left, right]).isConstant = (left.isConstant && right.isConstant) := by
  rw [isConstant, isConstantAll, isConstantAll, isConstantAll, Bool.and_true]

theorem arguments_of_mapM_literal? {arguments : List (Expr α)} {literals : List α}
    (found : arguments.mapM literal? = some literals) : arguments = literals.map number := by
  induction arguments generalizing literals with
  | nil =>
    cases found
    rfl
  | cons argument arguments ih =>
    simp only [List.mapM_cons, Option.bind_eq_bind, Option.bind_eq_some_iff, Option.pure_def,
      Option.some.injEq] at found
    obtain ⟨literal, isLiteral, others, foundOthers, rfl⟩ := found
    cases argument with
    | number value =>
      cases isLiteral
      rw [ih foundOthers]
      rfl
    | _ => cases isLiteral

variable [Scalar α]

theorem literal_or_appliedTo_eq_call (function : Elementary) (tree : Expr α) :
    (∃ literal, tree = number literal) ∨ appliedTo function tree = call function [tree] := by
  cases tree with
  | number literal => exact .inl ⟨literal, rfl⟩
  | _ => exact .inr rfl

theorem isConstant_of_isLiteral {expected : α} (isLiteral : tree.isLiteral expected = true) :
    tree.isConstant = true := by
  cases tree with
  | number _ => rfl
  | _ => cases isLiteral

theorem isConstant_of_appliedTo {function : Elementary}
    (constant : (appliedTo function tree).isConstant = true) : tree.isConstant = true := by
  rcases literal_or_appliedTo_eq_call function tree with ⟨literal, rfl⟩ | stays
  · rfl
  · rw [stays, isConstant_call_singleton] at constant
    exact constant

theorem literals_of_folded {operator : Operator} {literal : α}
    (folds : folded operator left right = number literal) :
    (∃ a, left = number a) ∧ ∃ b, right = number b := by
  unfold folded at folds
  split at folds
  · exact ⟨⟨_, rfl⟩, ⟨_, rfl⟩⟩
  · cases folds

end Expr

section ExactLiterals

variable {K : Type u} [Field K] [DecidableEq K] [ExactMeaning K]

theorem Expr.isZero_known (a : K) : (number (Exact.known a)).isZero = decide (a = 0) := by
  rw [isZero, Exact.zero_eq]
  rfl

theorem Expr.one_eq : (one : Expr (Exact K)) = number (.known 1) := by
  rw [one, Exact.one_eq]

theorem Expr.difference_one (a : K) :
    difference (number (Exact.known a)) one = number (.known (a - 1)) := by
  unfold difference
  rw [one_eq, isZero_known, isZero_known, decide_eq_false one_ne_zero, if_neg Bool.false_ne_true]
  split
  · rename_i zero
    rw [of_decide_eq_true zero, zero_sub]
    rfl
  · rfl

end ExactLiterals

namespace Denotes

variable {K : Type u} [Field K] [DecidableEq K] [ExactMeaning K]
variable {conditions : Conditions K} {x : K} {tree left right : Expr (Exact K)} {a b value : K}

theorem literal_eq {literal : Exact K} (denotes : Denotes conditions x (.number literal) value) :
    literal = .known value :=
  denotes.exactAt_eq

theorem zero : Denotes conditions x Expr.zero 0 := by
  rw [Expr.zero, Exact.zero_eq]
  exact number 0

theorem one : Denotes conditions x Expr.one 1 := by
  rw [Expr.one_eq]
  exact number 1

theorem natural (n : Nat) : Denotes conditions x (.number (Scalar.natural n)) (n : K) :=
  number (n : K)

theorem two : Denotes conditions x (.number Scalar.two) 2 := by
  rw [Exact.two_eq]
  exact number 2

theorem eq_of_isLiteral {expected : K} (denotes : Denotes conditions x tree value)
    (isLiteral : tree.isLiteral (.known expected) = true) : value = expected := by
  cases tree with
  | number literal =>
    rw [denotes.literal_eq] at isLiteral
    exact of_decide_eq_true isLiteral
  | _ => cases isLiteral

theorem eq_zero (denotes : Denotes conditions x tree value) (isZero : tree.isZero = true) :
    value = 0 := by
  rw [Expr.isZero, Exact.zero_eq] at isZero
  exact denotes.eq_of_isLiteral isZero

theorem eq_one (denotes : Denotes conditions x tree value) (isOne : tree.isOne = true) :
    value = 1 := by
  rw [Expr.isOne, Exact.one_eq] at isOne
  exact denotes.eq_of_isLiteral isOne

/-! ### Operations -/

theorem negated (denotes : Denotes conditions x tree a) :
    Denotes conditions x tree.negated (-a) := by
  cases denotes with
  | number value => exact number _
  | neg inner =>
    rw [neg_neg]
    exact inner
  | var => exact neg var
  | binary first second defined met => exact neg (binary first second defined met)
  | call inner defined met => exact neg (call inner defined met)
  | logarithm first second defined met => exact neg (logarithm first second defined met)

/-- An operation, carried out on two literals or built. The conditions count in the second case. -/
theorem folded {operator : Operator} (first : Denotes conditions x left a)
    (second : Denotes conditions x right b)
    (defined : operator.apply (Exact.known a) (Exact.known b) = .known value)
    (met : conditions.operation operator a right b) :
    Denotes conditions x (Expr.folded operator left right) value := by
  have built := binary first second defined met
  unfold Expr.folded
  split
  · rw [first.literal_eq, second.literal_eq, defined]
    exact number value
  · exact built

theorem sum (first : Denotes conditions x left a) (second : Denotes conditions x right b) :
    Denotes conditions x (Expr.sum left right) (a + b) := by
  unfold Expr.sum
  split
  · rename_i leftZero
    rw [first.eq_zero leftZero, zero_add]
    exact second
  · split
    · rename_i rightZero
      rw [second.eq_zero rightZero, add_zero]
      exact first
    · exact folded first second rfl trivial

theorem difference (first : Denotes conditions x left a) (second : Denotes conditions x right b) :
    Denotes conditions x (Expr.difference left right) (a - b) := by
  unfold Expr.difference
  split
  · rename_i rightZero
    rw [second.eq_zero rightZero, sub_zero]
    exact first
  · split
    · rename_i leftZero
      rw [first.eq_zero leftZero, zero_sub]
      exact second.negated
    · exact folded first second rfl trivial

/-- A product. Each literal gathered from the right factor leaves a product to be built again, so
the induction is on the right factor, for any left one. -/
theorem product (first : Denotes conditions x left a) (second : Denotes conditions x right b) :
    Denotes conditions x (Expr.product left right) (a * b) := by
  fun_induction Expr.product left right generalizing a b with
  | case1 left right someZero =>
    have vanishes : a * b = 0 := by
      rcases Bool.or_eq_true_iff.mp someZero with leftZero | rightZero
      · rw [first.eq_zero leftZero, zero_mul]
      · rw [second.eq_zero rightZero, mul_zero]
    rw [vanishes]
    exact zero
  | case2 left right _ leftOne =>
    rw [first.eq_one leftOne, one_mul]
    exact second
  | case3 left right _ _ rightOne =>
    rw [second.eq_one rightOne, mul_one]
    exact first
  | case4 literal factor rest _ _ _ _ ih =>
    cases second with
    | @binary _ _ _ factorValue restValue _ factorDenotes restDenotes defined _ =>
      have gathered : Denotes conditions x (.number (literal * factor)) (a * factorValue) := by
        rw [first.literal_eq, factorDenotes.literal_eq]
        exact number (a * factorValue)
      -- The two literals become one, and the product is built again with a smaller right factor.
      have productValue : factorValue * restValue = b := Exact.known_injective defined
      rw [← productValue, ← mul_assoc]
      exact ih gathered restDenotes
  | case5 =>
    exact binary first second rfl trivial
  | case6 =>
    exact folded first second rfl trivial

theorem quotient (first : Denotes conditions x left a) (second : Denotes conditions x right b)
    (nonzero : b ≠ 0) : Denotes conditions x (Expr.quotient left right) (a / b) := by
  unfold Expr.quotient
  split
  · rename_i rightOne
    rw [second.eq_one rightOne, div_one]
    exact first
  · exact folded first second (Exact.known_div_of_ne_zero a nonzero) trivial

theorem power [LawfulPow K] (first : Denotes conditions x left a)
    (second : Denotes conditions x right b)
    (defined : ExactMeaning.pow a b = .known value) (met : conditions.power a right b) :
    Denotes conditions x (Expr.power left right) value := by
  unfold Expr.power
  split
  · rename_i rightOne
    rw [second.eq_one rightOne, LawfulPow.pow_one] at defined
    exact Exact.known_injective defined ▸ first
  · split
    · rename_i rightZero
      rw [second.eq_zero rightZero, LawfulPow.pow_zero] at defined
      exact Exact.known_injective defined ▸ one
    · exact folded first second defined met

theorem appliedTo {function : Elementary} (inner : Denotes conditions x tree a)
    (defined : function.applyOne (Exact.known a) = .known value)
    (met : conditions.call function [a]) :
    Denotes conditions x (Expr.appliedTo function tree) value := by
  rcases Expr.literal_or_appliedTo_eq_call function tree with ⟨literal, rfl⟩ | stays
  · have folds : Expr.appliedTo function (.number literal) =
        Expr.literalOr (function.apply [literal]) (.call function [.number literal]) := rfl
    rw [folds, inner.literal_eq, Elementary.apply_singleton, defined]
    exact number value
  · rw [stays]
    exact call inner defined met

end Denotes

end Tangency
