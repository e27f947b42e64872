/-
Clean trees are the normal form of folding.

A part of a tree is reducible if an identity applies at its root: an operand that an operation has
an identity for, literals that it could be carried out on, a negation that could be dropped, or two
literal factors that could be gathered.  A clean tree has no reducible part.  Folding clean operands
gives a clean tree; building any tree again by folding, from the leaves up, gives a clean tree, and
changes nothing exactly if the tree was clean.  So derivatives of clean trees are clean.

Nothing is asked of the arithmetic.  Comparison with zero and one and finiteness are those of the
scalar type.
-/

import Tangency.Proofs.FoldedParts

namespace Tangency

universe u

namespace Expr

variable {α : Type u} [Scalar α]

/-- A zero in a sum or difference, a zero or one in a product, a division by one, an exponent one or
zero. -/
def hasIdentity (operator : Operator) (left right : Expr α) : Bool :=
  match operator with
  | .add | .sub => left.isZero || right.isZero
  | .mul => left.isZero || right.isZero || left.isOne || right.isOne
  | .div => right.isOne
  | .pow => right.isOne || right.isZero

/-- Two literals on which the operation has a finite result. -/
def literalsFold (operator : Operator) : Expr α → Expr α → Bool
  | number a, number b => Scalar.isFinite (operator.apply a b)
  | _, _ => false

/-- A literal factor and a product that a literal leads, the product of both literals finite. -/
def factorsGather (operator : Operator) (left right : Expr α) : Bool :=
  match operator, left, right with
  | .mul, number a, binary .mul (number b) _ => Scalar.isFinite (a * b)
  | _, _, _ => false

def absorbsMinus : Expr α → Bool
  | number _ | neg _ => true
  | _ => false

def argumentsFold (function : Elementary) (arguments : List (Expr α)) : Bool :=
  match arguments.mapM literal? with
  | some literals => Scalar.isFinite (function.apply literals)
  | none => false

/-- Whether an identity of folding applies at the root. -/
def isReducible : Expr α → Bool
  | number _ | var => false
  | neg operand => operand.absorbsMinus
  | binary operator left right =>
    hasIdentity operator left right || literalsFold operator left right ||
      factorsGather operator left right
  | call function arguments => argumentsFold function arguments

def Clean (tree : Expr α) : Prop := tree.Throughout fun part => part.isReducible = false

variable {left right : Expr α}

theorem exists_literals_of_literalsFold {operator : Operator}
    (folds : literalsFold operator left right = true) :
    ∃ a b, left = number a ∧ right = number b ∧ Scalar.isFinite (operator.apply a b) = true := by
  unfold literalsFold at folds
  split at folds
  · exact ⟨_, _, rfl, rfl, folds⟩
  · cases folds

theorem isReducible_binary_eq_false_iff {operator : Operator} :
    (binary operator left right).isReducible = false ↔
      hasIdentity operator left right = false ∧ literalsFold operator left right = false ∧
        factorsGather operator left right = false := by
  rw [isReducible, Bool.or_eq_false_iff, Bool.or_eq_false_iff, and_assoc]

theorem folded_of_literalsFold_eq_false {operator : Operator}
    (keeps : literalsFold operator left right = false) :
    folded operator left right = binary operator left right := by
  unfold folded
  split
  · exact if_neg (Bool.eq_false_iff.mp keeps)
  · rfl

theorem negated_of_isReducible_eq_false {operand : Expr α}
    (irreducible : (neg operand).isReducible = false) : negated operand = neg operand := by
  cases operand with
  | number literal => cases irreducible
  | neg inner => cases irreducible
  | _ => rfl

theorem combined_of_isReducible_eq_false {operator : Operator}
    (irreducible : (binary operator left right).isReducible = false) :
    combined operator left right = binary operator left right := by
  obtain ⟨noIdentity, keeps, scattered⟩ := isReducible_binary_eq_false_iff.mp irreducible
  have built := folded_of_literalsFold_eq_false keeps
  cases operator with
  | add =>
    obtain ⟨leftNonzero, rightNonzero⟩ := Bool.or_eq_false_iff.mp noIdentity
    change sum left right = _
    rw [sum, leftNonzero, rightNonzero]
    exact built
  | sub =>
    obtain ⟨leftNonzero, rightNonzero⟩ := Bool.or_eq_false_iff.mp noIdentity
    change difference left right = _
    rw [difference, leftNonzero, rightNonzero]
    exact built
  | mul =>
    obtain ⟨others, rightNotOne⟩ := Bool.or_eq_false_iff.mp noIdentity
    obtain ⟨nonzero, leftNotOne⟩ := Bool.or_eq_false_iff.mp others
    change product left right = _
    unfold product
    rw [nonzero, leftNotOne, rightNotOne]
    simp only [Bool.false_eq_true, if_false]
    split
    · exact if_neg (Bool.eq_false_iff.mp scattered)
    · exact built
  | div =>
    have notOne : right.isOne = false := noIdentity
    change quotient left right = _
    rw [quotient, notOne]
    exact built
  | pow =>
    obtain ⟨notOne, nonzero⟩ := Bool.or_eq_false_iff.mp noIdentity
    change power left right = _
    rw [power, notOne, nonzero]
    exact built

theorem applied_of_isReducible_eq_false {function : Elementary} {arguments : List (Expr α)}
    (irreducible : (call function arguments).isReducible = false) :
    applied function arguments = call function arguments := by
  change argumentsFold function arguments = false at irreducible
  unfold argumentsFold at irreducible
  unfold applied
  split
  · rename_i literals found
    rw [found] at irreducible
    exact if_neg (Bool.eq_false_iff.mp irreducible)
  · rfl

theorem hasIdentity_mul_eq_false (nonzero : ¬(left.isZero || right.isZero) = true)
    (leftNotOne : ¬left.isOne = true) (rightNotOne : ¬right.isOne = true) :
    hasIdentity .mul left right = false := by
  rw [hasIdentity, Bool.eq_false_iff.mpr nonzero, Bool.eq_false_iff.mpr leftNotOne,
    Bool.eq_false_iff.mpr rightNotOne]
  rfl

theorem factorsGather_eq_false {operator : Operator}
    (apart : ∀ (a b : α) (rest : Expr α),
      left = number a → right = binary .mul (number b) rest → False) :
    factorsGather operator left right = false := by
  unfold factorsGather
  split
  · exact (apart _ _ _ rfl rfl).elim
  · rfl

/-! ### Folding keeps trees clean -/

namespace Clean

theorem folded {operator : Operator} (first : left.Clean) (second : right.Clean)
    (noIdentity : hasIdentity operator left right = false)
    (scattered : factorsGather operator left right = false) :
    (Expr.folded operator left right).Clean := by
  cases folds : literalsFold operator left right with
  | false =>
    rw [folded_of_literalsFold_eq_false folds]
    exact ⟨isReducible_binary_eq_false_iff.mpr ⟨noIdentity, folds, scattered⟩, first, second⟩
  | true =>
    obtain ⟨a, b, rfl, rfl, finite⟩ := exists_literals_of_literalsFold folds
    change (literalOr (operator.apply a b) _).Clean
    rw [literalOr, if_pos finite]
    exact rfl

theorem negated {operand : Expr α} (clean : operand.Clean) : (Expr.negated operand).Clean := by
  cases operand with
  | number literal => exact rfl
  | neg inner => exact clean.2
  | var => exact ⟨rfl, clean⟩
  | binary => exact ⟨rfl, clean⟩
  | call => exact ⟨rfl, clean⟩

/-- A product stays clean however many literals are gathered: each round leaves the zeros, the ones
and the next pair of literals to the round after it. -/
theorem product (first : left.Clean) (second : right.Clean) : (Expr.product left right).Clean := by
  fun_induction Expr.product left right with
  | case1 => exact rfl
  | case2 => exact second
  | case3 => exact first
  | case4 _ _ _ _ _ _ _ ih => exact ih rfl second.2.2
  | case5 a b rest infinite rightNotOne leftNotOne nonzero =>
    have noIdentity := hasIdentity_mul_eq_false nonzero leftNotOne rightNotOne
    have scattered : factorsGather .mul (number a) (binary .mul (number b) rest) = false :=
      Bool.eq_false_iff.mpr infinite
    exact ⟨isReducible_binary_eq_false_iff.mpr ⟨noIdentity, rfl, scattered⟩, first, second⟩
  | case6 right left nonzero leftNotOne rightNotOne apart =>
    exact folded first second (hasIdentity_mul_eq_false nonzero leftNotOne rightNotOne)
      (factorsGather_eq_false apart)

theorem combined (operator : Operator) (first : left.Clean) (second : right.Clean) :
    (Expr.combined operator left right).Clean := by
  cases operator with
  | add =>
    change (sum left right).Clean
    unfold sum
    split
    · exact second
    · split
      · exact first
      · rename_i leftNonzero rightNonzero
        have noIdentity : hasIdentity .add left right = false := by
          simp [hasIdentity, leftNonzero, rightNonzero]
        exact folded first second noIdentity rfl
  | sub =>
    change (difference left right).Clean
    unfold difference
    split
    · exact first
    · split
      · exact second.negated
      · rename_i rightNonzero leftNonzero
        have noIdentity : hasIdentity .sub left right = false := by
          simp [hasIdentity, leftNonzero, rightNonzero]
        exact folded first second noIdentity rfl
  | mul => exact product first second
  | div =>
    change (quotient left right).Clean
    unfold quotient
    split
    · exact first
    · rename_i notOne
      exact folded first second (Bool.eq_false_iff.mpr notOne) rfl
  | pow =>
    change (power left right).Clean
    unfold power
    split
    · exact first
    · split
      · exact rfl
      · rename_i notOne nonzero
        have noIdentity : hasIdentity .pow left right = false := by
          simp [hasIdentity, notOne, nonzero]
        exact folded first second noIdentity rfl

theorem applied (function : Elementary) {arguments : List (Expr α)}
    (clean : ∀ argument ∈ arguments, argument.Clean) :
    (Expr.applied function arguments).Clean := by
  have everywhere := throughoutAll_iff.mpr clean
  cases folds : argumentsFold function arguments with
  | false =>
    rw [applied_of_isReducible_eq_false folds]
    exact ⟨folds, everywhere⟩
  | true =>
    cases found : arguments.mapM literal? with
    | none =>
      rw [argumentsFold, found] at folds
      cases folds
    | some literals =>
      rw [argumentsFold, found] at folds
      have unfolded : Expr.applied function arguments =
          literalOr (function.apply literals) (call function arguments) := by
        rw [Expr.applied, found]
      rw [unfolded, literalOr, if_pos folds]
      exact rfl

end Clean

theorem keptByFolding_clean : KeptByFolding fun part : Expr α => part.isReducible = false where
  literal _ := rfl
  negated clean := Clean.negated clean
  combined operator _ _ first second := Clean.combined operator first second
  appliedTo function _ clean := Clean.applied function (List.forall_mem_singleton.mpr clean)

mutual

def rebuilt : Expr α → Expr α
  | number literal => number literal
  | var => var
  | neg operand => negated operand.rebuilt
  | binary operator left right => combined operator left.rebuilt right.rebuilt
  | call function arguments => applied function (rebuiltAll arguments)

def rebuiltAll : List (Expr α) → List (Expr α)
  | [] => []
  | argument :: arguments => argument.rebuilt :: rebuiltAll arguments

end

mutual

theorem rebuilt_clean (tree : Expr α) : tree.rebuilt.Clean := by
  match tree with
  | number literal => exact rfl
  | var => exact rfl
  | neg operand => exact (rebuilt_clean operand).negated
  | binary operator left right =>
    exact .combined operator (rebuilt_clean left) (rebuilt_clean right)
  | call function arguments => exact .applied function (rebuiltAll_clean arguments)

theorem rebuiltAll_clean (arguments : List (Expr α)) :
    ∀ argument ∈ rebuiltAll arguments, argument.Clean := by
  match arguments with
  | [] => exact nofun
  | argument :: others =>
    exact List.forall_mem_cons.mpr ⟨rebuilt_clean argument, rebuiltAll_clean others⟩

end

mutual

theorem Clean.rebuilt_eq {tree : Expr α} (clean : tree.Clean) : tree.rebuilt = tree := by
  match tree with
  | number literal => rfl
  | var => rfl
  | neg operand =>
    rw [rebuilt, Clean.rebuilt_eq clean.2]
    exact negated_of_isReducible_eq_false clean.1
  | binary operator left right =>
    rw [rebuilt, Clean.rebuilt_eq clean.2.1, Clean.rebuilt_eq clean.2.2]
    exact combined_of_isReducible_eq_false clean.1
  | call function arguments =>
    rw [rebuilt, Clean.rebuiltAll_eq clean.2]
    exact applied_of_isReducible_eq_false clean.1

theorem Clean.rebuiltAll_eq {arguments : List (Expr α)}
    (clean : ThroughoutAll (fun part => part.isReducible = false) arguments) :
    rebuiltAll arguments = arguments := by
  match arguments with
  | [] => rfl
  | argument :: others =>
    rw [rebuiltAll, Clean.rebuilt_eq clean.1, Clean.rebuiltAll_eq clean.2]

end

theorem rebuilt_eq_self_iff (tree : Expr α) : tree.rebuilt = tree ↔ tree.Clean := by
  constructor
  · intro same
    rw [← same]
    exact tree.rebuilt_clean
  · exact Clean.rebuilt_eq

end Expr

/-- Clean trees are the normal form of folding. Each folding constructor gives a clean tree for
clean operands; building a tree again gives a clean tree and leaves a tree as it is exactly if the
tree is clean, so doing it twice is doing it once; and the derivative of a clean tree is clean. -/
theorem folding_reaches_clean_trees {α : Type u} [Scalar α] :
    (∀ operand : Expr α, operand.Clean → (Expr.negated operand).Clean) ∧
    (∀ operator (left right : Expr α), left.Clean → right.Clean →
      (Expr.combined operator left right).Clean) ∧
    (∀ function (arguments : List (Expr α)), (∀ argument ∈ arguments, argument.Clean) →
      (Expr.applied function arguments).Clean) ∧
    (∀ tree : Expr α, tree.rebuilt.Clean ∧ (tree.rebuilt = tree ↔ tree.Clean) ∧
      tree.rebuilt.rebuilt = tree.rebuilt) ∧
    ∀ tree : Expr α, tree.Clean → tree.derivative.Clean := by
  refine ⟨fun _ clean => clean.negated,
    fun operator _ _ first second => .combined operator first second,
    fun function _ clean => .applied function clean, ?_, ?_⟩
  · intro tree
    have clean := tree.rebuilt_clean
    exact ⟨clean, tree.rebuilt_eq_self_iff, clean.rebuilt_eq⟩
  · intro tree clean
    exact Expr.keptByFolding_clean.derivative clean

end Tangency
