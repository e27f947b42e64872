/-
The folding constructors return trees that are worth what they stand for.

Wherever an operation that is not folded has a value, the tree that the constructor returns has the
same value.  The operands are any trees, so every identity is met in every combination, literal
factors gathered again and again among them.  The converse fails: a product with the literal zero
is folded to zero also where the other factor has no value.

A tree with a value has parts with values, since every operation passes an undefined operand on.
Hence it denotes its value, and what folding does with denoted numbers applies.
-/

import Tangency.Proofs.RealMeaning

namespace Tangency

universe u

section ExactArithmetic

variable {K : Type u}

theorem Exact.exists_known_of_lift {operation : K → Exact K} {a : Exact K} {value : K}
    (defined : lift operation a = known value) : ∃ argument, a = known argument := by
  cases a with
  | known argument => exact ⟨argument, rfl⟩
  | undefined => cases defined

theorem Exact.exists_known_of_lift₂ {operation : K → K → Exact K} {a b : Exact K} {value : K}
    (defined : lift₂ operation a b = known value) :
    ∃ left right, a = known left ∧ b = known right := by
  cases a with
  | undefined => cases defined
  | known left =>
    cases b with
    | undefined => cases defined
    | known right => exact ⟨left, right, rfl, rfl⟩

variable [Field K] [DecidableEq K] [ExactMeaning K]

theorem Operator.exists_known_of_apply (operator : Operator) {a b : Exact K} {value : K}
    (defined : operator.apply a b = .known value) :
    ∃ left right, a = .known left ∧ b = .known right := by
  cases operator <;> exact Exact.exists_known_of_lift₂ defined

theorem Elementary.exists_known_of_applyOne {function : Elementary} {a : Exact K} {value : K}
    (defined : function.applyOne a = .known value) : ∃ argument, a = .known argument := by
  cases function with
  | sign =>
    cases a with
    | known argument => exact ⟨argument, rfl⟩
    | undefined => cases defined
  | _ => exact Exact.exists_known_of_lift defined

theorem Denotes.of_exactAt {x : K} {tree : Expr (Exact K)} {value : K}
    (defined : tree.exactAt x = .known value) : Denotes Conditions.none x tree value := by
  match tree with
  | .number literal =>
    have known : literal = .known value := defined
    exact known ▸ .number value
  | .var =>
    have same : x = value := Exact.known_injective defined
    exact same ▸ .var
  | .neg operand =>
    change -operand.exactAt x = _ at defined
    obtain ⟨a, inner⟩ := Exact.exists_known_of_lift defined
    rw [inner] at defined
    exact Exact.known_injective defined ▸ .neg (of_exactAt inner)
  | .binary operator left right =>
    change operator.apply (left.exactAt x) (right.exactAt x) = _ at defined
    obtain ⟨a, b, first, second⟩ := Operator.exists_known_of_apply operator defined
    rw [first, second] at defined
    exact .binary (of_exactAt first) (of_exactAt second) defined (by cases operator <;> trivial)
  | .call function arguments =>
    change function.apply (Expr.valueAll id (.known x) arguments) = _ at defined
    rw [Expr.valueAll_eq_map] at defined
    rcases Elementary.eq_of_apply_known defined with
      ⟨given, one, result⟩ | ⟨isLog, given, givenBase, two, result⟩
    · obtain ⟨argument, rfl, rfl⟩ := List.map_eq_singleton_iff.mp one
      change function.applyOne (argument.exactAt x) = _ at result
      obtain ⟨a, inner⟩ := Elementary.exists_known_of_applyOne result
      rw [inner] at result
      exact .call (of_exactAt inner) result trivial
    · subst isLog
      obtain ⟨argument, base, rfl, rfl, rfl⟩ := map_eq_pair two
      change Scalar.ln (argument.exactAt x) / Scalar.ln (base.exactAt x) = _ at result
      obtain ⟨upper, lower, upperDefined, lowerDefined⟩ :=
        Operator.exists_known_of_apply .div result
      obtain ⟨a, first⟩ := Exact.exists_known_of_lift upperDefined
      obtain ⟨b, second⟩ := Exact.exists_known_of_lift lowerDefined
      rw [first, second] at result
      exact .logarithm (of_exactAt first) (of_exactAt second) result trivial

namespace Expr

/-- Where the second tree has a value, the first has the same. -/
def RefinesAt (x : K) (tree unfolded : Expr (Exact K)) : Prop :=
  ∀ value, unfolded.exactAt x = .known value → tree.exactAt x = .known value

variable (x : K) (left right : Expr (Exact K))

theorem negated_refinesAt (operand : Expr (Exact K)) :
    (negated operand).RefinesAt x (neg operand) := by
  intro value defined
  cases Denotes.of_exactAt defined with
  | neg inner => exact inner.negated.exactAt_eq

theorem sum_refinesAt : (sum left right).RefinesAt x (binary .add left right) := by
  intro value defined
  cases Denotes.of_exactAt defined with
  | binary first second result met =>
    exact (first.sum second).exactAt_eq.trans result

theorem difference_refinesAt : (difference left right).RefinesAt x (binary .sub left right) := by
  intro value defined
  cases Denotes.of_exactAt defined with
  | binary first second result met =>
    exact (first.difference second).exactAt_eq.trans result

theorem product_refinesAt : (product left right).RefinesAt x (binary .mul left right) := by
  intro value defined
  cases Denotes.of_exactAt defined with
  | binary first second result met =>
    exact (first.product second).exactAt_eq.trans result

theorem quotient_refinesAt : (quotient left right).RefinesAt x (binary .div left right) := by
  intro value defined
  cases Denotes.of_exactAt defined with
  | binary first second result met =>
    obtain ⟨nonzero, valueEq⟩ := Exact.eq_of_known_div result
    rw [valueEq]
    exact (first.quotient second nonzero).exactAt_eq

theorem power_refinesAt [LawfulPow K] :
    (power left right).RefinesAt x (binary .pow left right) := by
  intro value defined
  cases Denotes.of_exactAt defined with
  | binary first second result met => exact (first.power second result trivial).exactAt_eq

theorem map_exactAt_of_literals {arguments : List (Expr (Exact K))} {literals : List (Exact K)}
    (found : arguments.mapM literal? = some literals) : arguments.map (exactAt x) = literals := by
  rw [arguments_of_mapM_literal? found, List.map_map]
  exact List.map_id literals

theorem applied_refinesAt (function : Elementary) (arguments : List (Expr (Exact K))) :
    (applied function arguments).RefinesAt x (call function arguments) := by
  intro value defined
  have unfolded :
      (call function arguments).exactAt x = function.apply (arguments.map (exactAt x)) :=
    congrArg function.apply (valueAll_eq_map id (.known x) arguments)
  unfold applied
  split
  · rename_i literals found
    rw [unfolded, map_exactAt_of_literals x found] at defined
    rw [defined]
    rfl
  · exact defined

end Expr

/-- Folding preserves meaning over exact arithmetic in any field in which `a ^ 0 = 1` and
`a ^ 1 = a`, whatever functions mean: for all operands and all lists of arguments, each folding
constructor returns a tree that has a value, and the same value, at every point at which the
operation that is not folded has one. -/
theorem folding_keeps_values [LawfulPow K] (x : K) :
    (∀ operand, (Expr.negated operand).RefinesAt x (.neg operand)) ∧
    (∀ left right, (Expr.sum left right).RefinesAt x (.binary .add left right)) ∧
    (∀ left right, (Expr.difference left right).RefinesAt x (.binary .sub left right)) ∧
    (∀ left right, (Expr.product left right).RefinesAt x (.binary .mul left right)) ∧
    (∀ left right, (Expr.quotient left right).RefinesAt x (.binary .div left right)) ∧
    (∀ left right, (Expr.power left right).RefinesAt x (.binary .pow left right)) ∧
    (∀ function arguments,
      (Expr.applied function arguments).RefinesAt x (.call function arguments)) ∧
    (∀ function argument,
      (Expr.appliedTo function argument).RefinesAt x (.call function [argument])) :=
  ⟨Expr.negated_refinesAt x, Expr.sum_refinesAt x, Expr.difference_refinesAt x,
    Expr.product_refinesAt x, Expr.quotient_refinesAt x,
    fun left right => Expr.power_refinesAt x left right, Expr.applied_refinesAt x,
    fun function argument => Expr.applied_refinesAt x function [argument]⟩

end ExactArithmetic

/-- The tree of `3 * (4 * x)`, with a literal factor at each level. -/
noncomputable def nestedFactors : Expr (Exact ℝ) :=
  .binary .mul (.number (Scalar.natural 3)) (.binary .mul (.number (Scalar.natural 4)) .var)

/-- A third literal factor is merged with both of the others. -/
theorem folding_keeps_values_nestedFactors :
    (Expr.product (.number (Scalar.natural 2)) nestedFactors).exactAt 5 =
      .known ((2 : ℕ) * ((3 : ℕ) * ((4 : ℕ) * 5))) := by
  obtain ⟨_, _, _, product, _⟩ := folding_keeps_values (5 : ℝ)
  exact product (.number (Scalar.natural 2)) nestedFactors _ rfl

end Tangency
