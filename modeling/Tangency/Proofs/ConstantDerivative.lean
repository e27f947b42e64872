/-
The derivative of a tree without the variable.

Every rule of differentiation multiplies the slopes of the operands into something or divides them
by something.  A product with a slope that is the literal zero disappears; a quotient of zero folds
only over a literal, and not over zero.  The square of a divisor is such a literal when the divisor
is a literal with a square that is neither infinite nor zero.  So divisions are all that can keep a
constant from having the literal zero as its derivative.

What remains of such a division mentions no variable either, and over exact arithmetic it is worth
zero wherever it has a value.
-/

import Tangency.Proofs.FoldedParts
import Tangency.Proofs.FoldedValues
import Tangency.Proofs.RoundTrip
import Tangency.Proofs.UnpackedDoubles

namespace Tangency

universe u

/-- Laws of a scalar type about the numbers that compare as equal to zero. -/
class LawfulZero (α : Type u) [Scalar α] : Prop where
  zero_isEqual : Scalar.isEqual (Scalar.zero : α) Scalar.zero = true
  two_not_isEqual_zero : Scalar.isEqual (Scalar.two : α) Scalar.zero = false
  two_not_isEqual_one : Scalar.isEqual (Scalar.two : α) Scalar.one = false
  not_isEqual_one {a : α} : Scalar.isEqual a Scalar.zero = true →
    Scalar.isEqual a Scalar.one = false
  neg_isEqual {a : α} : Scalar.isEqual a Scalar.zero = true →
    Scalar.isEqual (-a) Scalar.zero = true
  div_isEqual {a b : α} : Scalar.isEqual a Scalar.zero = true → Scalar.isFinite b = true →
    Scalar.isEqual b Scalar.zero = false →
    Scalar.isFinite (a / b) = true ∧ Scalar.isEqual (a / b) Scalar.zero = true
  div_zero {a b : α} : Scalar.isEqual a Scalar.zero = true →
    Scalar.isEqual b Scalar.zero = true → Scalar.isFinite (a / b) = false

namespace Binary64

theorem isEqual_scalar_zero_iff (x : Binary64) :
    Scalar.isEqual x Scalar.zero = true ↔ x.IsZero := by
  rw [scalar_zero_eq]
  exact x.isEqual_zero_iff

instance : LawfulZero Binary64 where
  zero_isEqual := by decide
  two_not_isEqual_zero := by decide
  two_not_isEqual_one := by decide
  not_isEqual_one := by
    intro a same
    rw [scalar_one_eq]
    exact (a.isEqual_scalar_zero_iff.mp same).isEqual_one
  neg_isEqual := by
    intro a same
    exact (-a).isEqual_scalar_zero_iff.mpr (a.isEqual_scalar_zero_iff.mp same).neg
  div_isEqual := by
    intro a b same finite different
    have nonzero : ¬b.IsZero := fun isZero =>
      Bool.eq_false_iff.mp different (b.isEqual_scalar_zero_iff.mpr isZero)
    have isZero := (a.isEqual_scalar_zero_iff.mp same).div finite nonzero
    exact ⟨isZero.isFinite, (a / b).isEqual_scalar_zero_iff.mpr isZero⟩
  div_zero := by
    intro a b same noDivisor
    exact (a.isEqual_scalar_zero_iff.mp same).isFinite_div (b.isEqual_scalar_zero_iff.mp noDivisor)

end Binary64

namespace Exact

variable {K : Type u} [Field K] [DecidableEq K] [ExactMeaning K]

theorem eq_of_isEqual_known {a : Exact K} {value : K}
    (same : Scalar.isEqual a (known value) = true) : a = known value := by
  cases a with
  | known number => exact congrArg known (of_decide_eq_true same)
  | undefined => cases same

instance [NeZero (2 : K)] : LawfulZero (Exact K) where
  zero_isEqual := by
    rw [zero_eq, isEqual_known]
    exact decide_eq_true rfl
  two_not_isEqual_zero := by
    rw [two_eq, zero_eq, isEqual_known]
    exact decide_eq_false two_ne_zero
  two_not_isEqual_one := by
    rw [two_eq, one_eq, isEqual_known]
    apply decide_eq_false
    intro same
    rw [← one_add_one_eq_two, add_eq_left] at same
    exact one_ne_zero same
  not_isEqual_one := by
    intro a isZero
    rw [zero_eq] at isZero
    rw [eq_of_isEqual_known isZero, one_eq, isEqual_known]
    exact decide_eq_false zero_ne_one
  neg_isEqual := by
    intro a isZero
    rw [zero_eq] at isZero ⊢
    rw [eq_of_isEqual_known isZero, neg_known, neg_zero, isEqual_known]
    exact decide_eq_true rfl
  div_isEqual := by
    intro a b isZero finite nonzero
    rw [zero_eq] at isZero nonzero ⊢
    rw [eq_of_isEqual_known isZero]
    cases b with
    | undefined => cases finite
    | known divisor =>
      rw [known_div_of_ne_zero 0 (of_decide_eq_false nonzero), zero_div, isEqual_known]
      exact ⟨rfl, decide_eq_true rfl⟩
  div_zero := by
    intro a b isZero noDivisor
    rw [zero_eq] at isZero noDivisor
    rw [eq_of_isEqual_known isZero, eq_of_isEqual_known noDivisor, known_div, divide, if_pos rfl]
    rfl

end Exact

namespace Expr

section Constants

variable {α : Type u}

mutual

theorem isConstant_iff_throughout (tree : Expr α) :
    tree.isConstant = true ↔ tree.Throughout (· ≠ var) := by
  match tree with
  | number literal => exact iff_of_true rfl nofun
  | var => exact iff_of_false nofun fun different => different rfl
  | neg operand =>
    rw [isConstant, isConstant_iff_throughout operand]
    exact (and_iff_right nofun).symm
  | binary operator left right =>
    rw [isConstant, Bool.and_eq_true, isConstant_iff_throughout left,
      isConstant_iff_throughout right]
    exact (and_iff_right nofun).symm
  | call function arguments =>
    rw [isConstant, isConstantAll_iff_throughoutAll arguments]
    exact (and_iff_right nofun).symm

theorem isConstantAll_iff_throughoutAll (arguments : List (Expr α)) :
    isConstantAll arguments = true ↔ ThroughoutAll (· ≠ var) arguments := by
  match arguments with
  | [] => exact iff_of_true rfl trivial
  | argument :: others =>
    rw [isConstantAll, Bool.and_eq_true, isConstant_iff_throughout argument,
      isConstantAll_iff_throughoutAll others]
    exact Iff.rfl

end

theorem indifferent_ne_var [Scalar α] : Indifferent fun part : Expr α => part ≠ var where
  literal _ := nofun
  finite _ := nofun
  opposite _ := nofun
  neg _ := nofun
  binary _ _ _ := nofun
  callOne _ _ := nofun

theorem isConstant_derivative [Scalar α] {tree : Expr α} (constant : tree.isConstant = true) :
    tree.derivative.isConstant = true := by
  have everywhere := tree.isConstant_iff_throughout.mp constant
  exact tree.derivative.isConstant_iff_throughout.mpr
    (indifferent_ne_var.keptByFolding.derivative everywhere)

end Constants

/-! ### Slopes of constants -/

section Slopes

variable {α : Type u} [Scalar α]

/-- The part is no division, unless by a divisor with the property, and no logarithm to a base,
unless it stands for such a quotient or for none. -/
def DivisorsMeet (property : Expr α → Prop) (part : Expr α) : Prop :=
  (∀ left divisor, part = binary .div left divisor → property divisor) ∧
    ∀ inner base, part = call .log [inner, base] →
      ∀ left divisor, quotient (appliedTo .ln inner) (appliedTo .ln base) =
        binary .div left divisor → property divisor

theorem DivisorsMeet.mono {first second : Expr α → Prop} (weaker : ∀ divisor, first divisor →
    second divisor) {part : Expr α} (meets : part.DivisorsMeet first) : part.DivisorsMeet second :=
  ⟨fun left divisor same => weaker divisor (meets.1 left divisor same),
    fun inner base isLog left divisor same =>
      weaker divisor (meets.2 inner base isLog left divisor same)⟩

/-- Trees that count as zero: the folding constructors treat them as they treat zero, if a quotient
has one of certain divisors. A tree that counts as zero and is not the literal may be divided by
any tree. -/
structure ZeroLike (vanishes divides : Expr α → Prop) : Prop where
  zero : vanishes zero
  negated {operand : Expr α} (holds : vanishes operand) : vanishes (negated operand)
  sum {left right : Expr α} (first : vanishes left) (second : vanishes right) :
    vanishes (sum left right)
  difference {left right : Expr α} (first : vanishes left) (second : vanishes right) :
    vanishes (difference left right)
  product {left right : Expr α} (some : vanishes left ∨ vanishes right) :
    vanishes (product left right)
  quotient {left right : Expr α} (holds : vanishes left) (allowed : divides right) :
    vanishes (quotient left right)
  nonzero {slope : Expr α} (holds : vanishes slope) (notZero : slope.isZero = false)
    (divisor : Expr α) : divides divisor

namespace ZeroLike

section Rules

variable {vanishes divides : Expr α → Prop} (laws : ZeroLike vanishes divides)
include laws

variable {inner slope left leftSlope right rightSlope : Expr α}

theorem quotientRule (first : vanishes leftSlope) (second : vanishes rightSlope)
    (allowed : divides (squared right)) :
    vanishes (Expr.quotientRule left leftSlope right rightSlope) :=
  laws.quotient (laws.difference (laws.product (.inl first)) (laws.product (.inr second))) allowed

theorem operatorRule (operator : Operator) (first : vanishes leftSlope)
    (second : vanishes rightSlope) (rightConstant : right.isConstant = true)
    (allowed : operator = .div → divides (squared right)) :
    vanishes (Expr.operatorRule operator left leftSlope right rightSlope) := by
  cases operator with
  | add => exact laws.sum first second
  | sub => exact laws.difference first second
  | mul => exact laws.sum (laws.product (.inl first)) (laws.product (.inr second))
  | div => exact laws.quotientRule first second (allowed rfl)
  | pow =>
    change vanishes (powerRule left leftSlope right rightSlope)
    rw [powerRule, if_pos rightConstant]
    exact laws.product (.inr first)

theorem chainRule (function : Elementary) (inner : Expr α) (holds : vanishes slope)
    (notZero : slope.isZero = false) : vanishes (Expr.chainRule function inner slope) := by
  have byAny (divisor : Expr α) : vanishes (Expr.quotient slope divisor) :=
    laws.quotient holds (laws.nonzero holds notZero divisor)
  cases function with
  | sin | cos | sinh | cosh | exp | abs => exact laws.product (.inr holds)
  | acos => exact laws.negated (byAny _)
  | sign => exact laws.zero
  | _ => exact byAny _

theorem logarithmSlope (inner : Expr α) (holds : vanishes slope) :
    vanishes (Expr.logarithmSlope inner slope) := by
  unfold Expr.logarithmSlope
  split
  · exact laws.zero
  · split
    · exact laws.zero
    · rename_i notZero
      exact laws.quotient holds (laws.nonzero holds (Bool.eq_false_iff.mpr notZero) inner)

theorem baseRule (first : vanishes leftSlope) (second : vanishes rightSlope)
    (allowed : ∀ upper lower, Expr.quotient (appliedTo .ln left) (appliedTo .ln right) =
      binary .div upper lower → divides (squared lower)) :
    vanishes (Expr.baseRule left leftSlope right rightSlope) := by
  unfold Expr.baseRule
  split
  · exact laws.logarithmSlope left first
  · rename_i notOne
    rw [Expr.quotient, if_neg notOne] at allowed
    split
    · exact laws.zero
    · rename_i notLiteral
      have stays := (folded_eq_number_or_binary .div (appliedTo .ln left)
        (appliedTo .ln right)).resolve_left fun ⟨literal, folds⟩ => notLiteral literal folds
      exact laws.quotientRule (laws.logarithmSlope left first) (laws.logarithmSlope right second)
        (allowed _ _ stays)

theorem callRule {function : Elementary} {arguments slopes : List (Expr α)}
    (zeros : ∀ slope ∈ slopes, vanishes slope)
    (allowed : (call function arguments).DivisorsMeet fun divisor => divides (squared divisor)) :
    vanishes (Expr.callRule function arguments slopes) := by
  unfold Expr.callRule
  split
  · rename_i inner base slope baseSlope
    exact laws.baseRule (zeros slope (by simp)) (zeros baseSlope (by simp)) (allowed.2 _ _ rfl)
  · rename_i inner _ slope _ _
    split
    · exact laws.zero
    · rename_i notZero
      exact laws.chainRule function inner (zeros slope List.mem_cons_self)
        (Bool.eq_false_iff.mpr notZero)
  · exact laws.zero

end Rules

mutual

theorem derivative {vanishes divides : Expr α → Prop} (laws : ZeroLike vanishes divides)
    {tree : Expr α} (constant : tree.isConstant = true)
    (allowed : tree.Throughout (DivisorsMeet fun divisor => divides (squared divisor))) :
    vanishes tree.derivative := by
  match tree with
  | number literal => exact laws.zero
  | var => cases constant
  | neg operand => exact laws.negated (derivative laws constant allowed.2)
  | binary operator left right =>
    obtain ⟨leftConstant, rightConstant⟩ := Bool.and_eq_true_iff.mp constant
    refine laws.operatorRule operator (derivative laws leftConstant allowed.2.1)
      (derivative laws rightConstant allowed.2.2) rightConstant ?_
    rintro rfl
    exact allowed.1.1 _ _ rfl
  | call function arguments =>
    exact laws.callRule (derivativeAll laws constant allowed.2) allowed.1

theorem derivativeAll {vanishes divides : Expr α → Prop} (laws : ZeroLike vanishes divides)
    {arguments : List (Expr α)} (constant : isConstantAll arguments = true)
    (allowed : ThroughoutAll (DivisorsMeet fun divisor => divides (squared divisor)) arguments) :
    ∀ slope ∈ Expr.derivativeAll arguments, vanishes slope := by
  match arguments with
  | [] => exact nofun
  | argument :: others =>
    obtain ⟨first, later⟩ := Bool.and_eq_true_iff.mp constant
    exact List.forall_mem_cons.mpr
      ⟨derivative laws first allowed.1, derivativeAll laws later allowed.2⟩

end

end ZeroLike

end Slopes

section Literals

variable {α : Type u} [Scalar α] {tree left leftSlope right rightSlope : Expr α}

theorem sum_of_left_isZero (right : Expr α) (isZero : left.isZero = true) :
    sum left right = right := by
  rw [sum, if_pos isZero]

theorem difference_of_right_isZero (left : Expr α) (isZero : right.isZero = true) :
    difference left right = left := by
  rw [difference, if_pos isZero]

theorem product_of_isZero (some : left.isZero = true ∨ right.isZero = true) :
    product left right = zero := by
  rw [product.eq_def, if_pos (Bool.or_eq_true_iff.mpr some)]

theorem derivative_of_isZero (isZero : tree.isZero = true) : tree.derivative = zero := by
  cases tree with
  | number literal => rfl
  | _ => cases isZero

theorem quotient_isZero_eq_false (left : Expr α) (notLiteral : ∀ literal, right ≠ number literal) :
    (quotient left right).isZero = false := by
  cases right with
  | number literal => exact absurd rfl (notLiteral literal)
  | _ => cases left <;> rfl

theorem folded_numbers (operator : Operator) (a b : α) :
    folded operator (number a) (number b) =
      literalOr (operator.apply a b) (binary operator (number a) (number b)) := rfl

def SquareFolds (divisor : Expr α) : Prop :=
  ∃ literal, divisor = number literal ∧
    Scalar.isFinite (Scalar.pow literal Scalar.two) = true ∧
    Scalar.isEqual (Scalar.pow literal Scalar.two) Scalar.zero = false

variable [LawfulZero α]

theorem zero_isZero : (zero : Expr α).isZero = true := LawfulZero.zero_isEqual

theorem negated_isZero (isZero : tree.isZero = true) : (negated tree).isZero = true := by
  cases tree with
  | number literal => exact LawfulZero.neg_isEqual isZero
  | _ => cases isZero

theorem squared_eq (tree : Expr α) : squared tree = folded .pow tree (number Scalar.two) := by
  have notOne : (number (Scalar.two : α)).isOne = false := LawfulZero.two_not_isEqual_one
  have notZero : (number (Scalar.two : α)).isZero = false := LawfulZero.two_not_isEqual_zero
  rw [squared, power, notOne, notZero, if_neg Bool.false_ne_true, if_neg Bool.false_ne_true]

theorem quotient_number_isZero (isZero : left.isZero = true) {divisor : α}
    (finite : Scalar.isFinite divisor = true) :
    (quotient left (number divisor)).isZero = !Scalar.isEqual divisor Scalar.zero := by
  cases left with
  | number literal =>
    unfold quotient
    rw [folded_numbers]
    cases noDivisor : Scalar.isEqual divisor Scalar.zero with
    | true =>
      have notOne : (number divisor).isOne = false := LawfulZero.not_isEqual_one noDivisor
      have noResult : Scalar.isFinite (Operator.div.apply literal divisor) = false :=
        LawfulZero.div_zero isZero noDivisor
      rw [notOne, if_neg Bool.false_ne_true, literalOr, noResult, if_neg Bool.false_ne_true]
      rfl
    | false =>
      split
      · exact isZero
      · have result := LawfulZero.div_isEqual isZero finite noDivisor
        rw [literalOr, if_pos (show Scalar.isFinite (Operator.div.apply _ _) = true from result.1)]
        exact result.2
  | _ => cases isZero

theorem quotient_squared_isZero_iff (isZero : left.isZero = true) :
    (quotient left (squared right)).isZero = true ↔ right.SquareFolds := by
  rw [squared_eq]
  cases right with
  | number literal =>
    rw [folded_numbers, literalOr]
    split
    · rename_i finite
      rw [quotient_number_isZero isZero finite, Bool.not_eq_true']
      constructor
      · intro nonzero
        exact ⟨literal, rfl, finite, nonzero⟩
      · rintro ⟨_, ⟨⟩, -, nonzero⟩
        exact nonzero
    · rename_i infinite
      rw [quotient_isZero_eq_false _ nofun]
      refine iff_of_false nofun ?_
      rintro ⟨_, ⟨⟩, finite, -⟩
      exact infinite finite
  | _ =>
    rw [quotient_isZero_eq_false _ nofun]
    exact iff_of_false nofun nofun

/-- Where the slopes of both operands are zero, the slope of a quotient is zero exactly if the
square of the divisor folds; otherwise zero over that square is left. -/
theorem quotientRule_isZero_iff (firstZero : leftSlope.isZero = true)
    (secondZero : rightSlope.isZero = true) :
    (quotientRule left leftSlope right rightSlope).isZero = true ↔ right.SquareFolds := by
  rw [quotientRule, product_of_isZero (.inl firstZero), product_of_isZero (.inr secondZero),
    difference_of_right_isZero _ zero_isZero]
  exact quotient_squared_isZero_iff zero_isZero

theorem zeroLike_isZero :
    ZeroLike (fun tree : Expr α => tree.isZero = true)
      (fun divisor => ∀ left : Expr α, left.isZero = true →
        (quotient left divisor).isZero = true) where
  zero := zero_isZero
  negated := negated_isZero
  sum first second := by
    rw [sum_of_left_isZero _ first]
    exact second
  difference first second := by
    rw [difference_of_right_isZero _ second]
    exact first
  product some := by
    rw [product_of_isZero some]
    exact zero_isZero
  quotient holds allowed := allowed _ holds
  nonzero holds notZero := by
    rw [holds] at notZero
    cases notZero

theorem derivative_isZero (constant : tree.isConstant = true)
    (settled : tree.Throughout (DivisorsMeet SquareFolds)) : tree.derivative.isZero = true := by
  apply zeroLike_isZero.derivative constant
  refine Throughout.and (fun part meets _ => meets.mono ?_) settled settled
  intro divisor squareFolds left isZero
  exact (quotient_squared_isZero_iff isZero).mpr squareFolds

end Literals

/-! ### The value zero -/

section Vanishing

variable {K : Type u} [Field K] [DecidableEq K] [ExactMeaning K]

def VanishesAt (x : K) (tree : Expr (Exact K)) : Prop :=
  ∀ value, tree.exactAt x = .known value → value = 0

variable {x : K} {tree left right slope : Expr (Exact K)}

theorem exactAt_of_isLiteral {expected : K} (isLiteral : tree.isLiteral (.known expected) = true) :
    tree.exactAt x = .known expected := by
  cases tree with
  | number literal => exact Exact.eq_of_isEqual_known isLiteral
  | _ => cases isLiteral

theorem exactAt_folded (operator : Operator) (left right : Expr (Exact K)) :
    (folded operator left right).exactAt x = operator.apply (left.exactAt x) (right.exactAt x) := by
  unfold folded
  split
  · unfold literalOr
    split <;> rfl
  · rfl

namespace VanishesAt

theorem zero : (Expr.zero : Expr (Exact K)).VanishesAt x := by
  intro value defined
  change Scalar.zero = _ at defined
  rw [Exact.zero_eq] at defined
  exact (Exact.known_injective defined).symm

theorem not_isOne (vanishes : tree.VanishesAt x) : tree.isOne = false := by
  apply Bool.eq_false_iff.mpr
  intro isOne
  rw [Expr.isOne, Exact.one_eq] at isOne
  exact one_ne_zero (vanishes 1 (exactAt_of_isLiteral isOne))

theorem neg (vanishes : tree.VanishesAt x) : (Expr.neg tree).VanishesAt x := by
  intro value defined
  change -tree.exactAt x = _ at defined
  obtain ⟨a, inner⟩ := Exact.exists_known_of_lift defined
  rw [inner, Exact.neg_known, vanishes a inner, neg_zero] at defined
  exact (Exact.known_injective defined).symm

theorem negated (vanishes : tree.VanishesAt x) : (Expr.negated tree).VanishesAt x := by
  cases tree with
  | neg operand =>
    intro value defined
    have opposite : (Expr.neg operand).exactAt x = .known (-value) := by
      change -operand.exactAt x = _
      rw [show operand.exactAt x = _ from defined, Exact.neg_known]
    exact neg_eq_zero.mp (vanishes _ opposite)
  | _ => exact vanishes.neg

theorem binary {operator : Operator}
    (vanishes : ∀ a b value, left.exactAt x = .known a → right.exactAt x = .known b →
      operator.apply (Exact.known a) (.known b) = .known value → value = 0) :
    (Expr.binary operator left right).VanishesAt x := by
  intro value defined
  change operator.apply (left.exactAt x) (right.exactAt x) = _ at defined
  obtain ⟨a, b, first, second⟩ := Operator.exists_known_of_apply operator defined
  rw [first, second] at defined
  exact vanishes a b value first second defined

theorem folded {operator : Operator} (vanishes : (Expr.binary operator left right).VanishesAt x) :
    (Expr.folded operator left right).VanishesAt x := by
  intro value defined
  rw [exactAt_folded] at defined
  exact vanishes value defined

theorem sum (first : left.VanishesAt x) (second : right.VanishesAt x) :
    (Expr.sum left right).VanishesAt x := by
  unfold Expr.sum
  split
  · exact second
  · split
    · exact first
    · refine folded (binary fun a b value ofLeft ofRight defined => ?_)
      rw [first a ofLeft, second b ofRight] at defined
      exact (Exact.known_injective defined).symm.trans (add_zero 0)

theorem difference (first : left.VanishesAt x) (second : right.VanishesAt x) :
    (Expr.difference left right).VanishesAt x := by
  unfold Expr.difference
  split
  · exact first
  · split
    · exact second.negated
    · refine folded (binary fun a b value ofLeft ofRight defined => ?_)
      rw [first a ofLeft, second b ofRight] at defined
      exact (Exact.known_injective defined).symm.trans (sub_zero 0)

theorem quotient (vanishes : left.VanishesAt x) (right : Expr (Exact K)) :
    (Expr.quotient left right).VanishesAt x := by
  unfold Expr.quotient
  split
  · exact vanishes
  · refine folded (binary fun a b value ofLeft ofRight defined => ?_)
    obtain ⟨-, rfl⟩ := Exact.eq_of_known_div defined
    rw [vanishes a ofLeft, zero_div]

theorem mul (someVanishes : left.VanishesAt x ∨ right.VanishesAt x) :
    (Expr.binary .mul left right).VanishesAt x := by
  refine binary fun a b value ofLeft ofRight defined => ?_
  rw [← Exact.known_injective defined]
  rcases someVanishes with first | second
  · rw [first a ofLeft, zero_mul]
  · rw [second b ofRight, mul_zero]

/-- A product. A literal that is gathered from the right factor takes part in both factors of the
product that is built next, and one of these vanishes again. -/
theorem product (someVanishes : left.VanishesAt x ∨ right.VanishesAt x) :
    (Expr.product left right).VanishesAt x := by
  fun_induction Expr.product left right with
  | case1 => exact zero
  | case2 right left _ leftOne =>
    have notLeft (first : left.VanishesAt x) : False :=
      Bool.eq_false_iff.mp first.not_isOne leftOne
    exact someVanishes.resolve_left notLeft
  | case3 right left _ _ rightOne =>
    have notRight (second : right.VanishesAt x) : False :=
      Bool.eq_false_iff.mp second.not_isOne rightOne
    exact someVanishes.resolve_right notRight
  | case4 literal factor rest finite _ _ _ ih =>
    apply ih
    cases gathered : literal * factor with
    | undefined =>
      rw [gathered] at finite
      cases finite
    | known both =>
      obtain ⟨a, b, rfl, rfl⟩ := Exact.exists_known_of_lift₂ gathered
      rw [← gathered, Exact.known_mul]
      by_cases noProduct : a * b = 0
      · left
        intro value defined
        exact (Exact.known_injective defined).symm.trans noProduct
      · right
        intro value ofRest
        have whole : a * (b * value) = 0 := by
          apply mul someVanishes
          change Exact.known a * (Exact.known b * rest.exactAt x) = _
          rw [ofRest, Exact.known_mul, Exact.known_mul]
        rw [← mul_assoc] at whole
        exact (mul_eq_zero.mp whole).resolve_left noProduct
  | case5 => exact mul someVanishes
  | case6 => exact (mul someVanishes).folded

end VanishesAt

theorem zeroLike_vanishesAt (x : K) :
    ZeroLike (VanishesAt x) fun _ => True where
  zero := .zero
  negated := .negated
  sum := .sum
  difference := .difference
  product := .product
  quotient holds _ := holds.quotient _
  nonzero _ _ _ := trivial

theorem derivative_vanishesAt (x : K) {tree : Expr (Exact K)} (constant : tree.isConstant = true) :
    tree.derivative.VanishesAt x := by
  apply (zeroLike_vanishesAt x).derivative constant
  have everywhere := tree.isConstant_iff_throughout.mp constant
  refine Throughout.and (fun _ _ _ => ?_) everywhere everywhere
  exact ⟨fun _ _ _ => trivial, fun _ _ _ _ _ _ => trivial⟩

end Vanishing

end Expr

/-- The derivative of a constant tree is constant. It is the literal zero if the square of every
divisor in the tree folds, and then the constant adds nothing to the derivative of a sum, a
difference or a product. Over a literal with a finite square, a quotient with a numerator of slope
zero has slope zero only if the square is not zero; otherwise the quotient of two zeros is kept.
Over exact arithmetic the derivative of any constant tree is worth zero wherever it has a value. -/
theorem derivative_of_constant {α : Type u} [Scalar α] [LawfulZero α] :
    (∀ tree : Expr α, tree.isConstant = true → tree.derivative.isConstant = true) ∧
    (∀ tree : Expr α, tree.isConstant = true →
      tree.Throughout (Expr.DivisorsMeet Expr.SquareFolds) →
        tree.derivative.isZero = true ∧ tree.secondDerivative.isZero = true ∧
        ∀ other : Expr α,
          (Expr.binary .add tree other).derivative = other.derivative ∧
          (Expr.binary .sub other tree).derivative = other.derivative ∧
          (Expr.binary .mul tree other).derivative = Expr.product tree other.derivative) ∧
    (∀ (left : Expr α) (divisor : α), left.derivative.isZero = true →
      Scalar.isFinite (Scalar.pow divisor Scalar.two) = true →
        ((Expr.binary .div left (.number divisor)).derivative.isZero = true ↔
          Scalar.isEqual (Scalar.pow divisor Scalar.two) Scalar.zero = false)) ∧
    ∀ (K : Type u) [Field K] [DecidableEq K] [ExactMeaning K] (x : K) (tree : Expr (Exact K)),
      tree.isConstant = true →
        ∀ value, tree.derivative.exactAt x = .known value → value = 0 := by
  refine ⟨fun tree constant => Expr.isConstant_derivative constant, ?_, ?_,
    fun K _ _ _ x tree constant => Expr.derivative_vanishesAt x constant⟩
  · intro tree constant settled
    have isZero := Expr.derivative_isZero constant settled
    refine ⟨isZero, ?_, fun other => ⟨?_, ?_, ?_⟩⟩
    · change tree.derivative.derivative.isZero = true
      rw [Expr.derivative_of_isZero isZero]
      exact Expr.zero_isZero
    · exact Expr.sum_of_left_isZero _ isZero
    · exact Expr.difference_of_right_isZero _ isZero
    · change Expr.productRule tree tree.derivative other other.derivative = _
      rw [Expr.productRule, Expr.product_of_isZero (.inl isZero),
        Expr.sum_of_left_isZero _ Expr.zero_isZero]
  · intro left divisor isZero finite
    have folds : (Expr.binary .div left (.number divisor)).derivative.isZero = true ↔
        (Expr.number divisor).SquareFolds :=
      Expr.quotientRule_isZero_iff isZero Expr.zero_isZero
    rw [folds]
    constructor
    · rintro ⟨_, ⟨⟩, -, nonzero⟩
      exact nonzero
    · intro nonzero
      exact ⟨divisor, rfl, finite, nonzero⟩

/-- The tree of `sin(2)*4`. -/
def fourfoldSine : Expr Binary64 :=
  .binary .mul (.call .sin [.number (Scalar.natural 2)]) (.number (Scalar.natural 4))

/-- The tree of `1/4`. -/
noncomputable def quarter : Expr (Exact ℝ) :=
  .binary .div (.number (.known 1)) (.number (.known 4))

theorem Expr.squareFolds_of_pos {a : ℝ} (positive : 0 < a) :
    (number (Exact.known a)).SquareFolds := by
  have square : Scalar.pow (Exact.known a) Scalar.two = .known (a ^ (2 : ℝ)) := by
    rw [Exact.two_eq]
    exact pow_of_pos positive 2
  refine ⟨.known a, rfl, ?_, ?_⟩
  · rw [square]
    rfl
  · rw [square, Exact.zero_eq, Exact.isEqual_known]
    exact decide_eq_false (Real.rpow_pos_of_pos positive 2).ne'

/-- A constant without a division, over doubles, and one that is a division by a literal. -/
theorem derivative_of_constant_quarter :
    fourfoldSine.isConstant = true ∧ fourfoldSine.Throughout (Expr.DivisorsMeet Expr.SquareFolds) ∧
      fourfoldSine.derivative.isZero = true ∧ quarter.isConstant = true ∧
      quarter.Throughout (Expr.DivisorsMeet Expr.SquareFolds) ∧
      quarter.derivative.isZero = true := by
  have noDivision : fourfoldSine.Throughout (Expr.DivisorsMeet Expr.SquareFolds) :=
    ⟨⟨nofun, nofun⟩, ⟨⟨nofun, nofun⟩, ⟨nofun, nofun⟩, trivial⟩, ⟨nofun, nofun⟩⟩
  have divides : quarter.DivisorsMeet Expr.SquareFolds := by
    refine ⟨?_, nofun⟩
    rintro _ _ ⟨⟩
    exact Expr.squareFolds_of_pos four_pos
  have settled : quarter.Throughout (Expr.DivisorsMeet Expr.SquareFolds) :=
    ⟨divides, ⟨nofun, nofun⟩, ⟨nofun, nofun⟩⟩
  obtain ⟨-, ofSine, -⟩ := derivative_of_constant (α := Binary64)
  obtain ⟨-, ofQuarter, -⟩ := derivative_of_constant (α := Exact ℝ)
  exact ⟨rfl, noDivision, (ofSine fourfoldSine rfl noDivision).1, rfl, settled,
    (ofQuarter quarter rfl settled).1⟩

/-- The tree of `1/(2+3)`. -/
def reciprocalSum : Expr Binary64 :=
  .binary .div (.number (Scalar.natural 1))
    (.binary .add (.number (Scalar.natural 2)) (.number (Scalar.natural 3)))

/-- The divisor is no literal, and zero over its square is left. -/
theorem derivative_reciprocalSum :
    reciprocalSum.isConstant = true ∧ reciprocalSum.LiteralsFinite ∧
      reciprocalSum.CallsAccepted ∧ reciprocalSum.derivative.text = "0/(2 + 3)^2" ∧
      reciprocalSum.derivative.isZero = false := by
  have finite : reciprocalSum.LiteralsFinite := by
    refine ⟨nofun, ?_, nofun, ?_, ?_⟩
    all_goals
      rintro _ ⟨⟩
      decide
  exact ⟨rfl, finite, ⟨nofun, nofun, nofun, nofun, nofun⟩, by decide +kernel, by decide +kernel⟩

end Tangency
