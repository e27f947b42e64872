/-
What the text of a tree is read as, and that it has the same meaning.

A tree to the right of `+` or `*` is written without parentheses if it binds as tightly, so
its operators join the chain that they are written in, which groups to the left.  A literal
with a minus is read as a negation.  Nothing else about a tree changes.

Meanings are over exact arithmetic in a field, with any meaning at all of powers and of
functions.  There sums and products may be regrouped.
-/

import Tangency.Proofs.Exact
import Tangency.Proofs.Grammar

namespace Tangency

universe u

namespace Chain

/-- The operator behind which a tree may go on with a chain. -/
def joint : Chain → Operator
  | additive => .add
  | multiplicative => .mul

def includes : Chain → Operator → Bool
  | additive, .add | additive, .sub => true
  | multiplicative, .mul | multiplicative, .div => true
  | _, _ => false

/-- The operator of a chain that takes back what its joint does. -/
def inverse : Chain → Operator
  | additive => .sub
  | multiplicative => .div

theorem eq_joint_or_inverse {chain : Chain} {operator : Operator}
    (included : chain.includes operator = true) :
    operator = chain.joint ∨ operator = chain.inverse := by
  cases chain with
  | additive =>
    cases operator with
    | add => exact .inl rfl
    | sub => exact .inr rfl
    | _ => cases included
  | multiplicative =>
    cases operator with
    | mul => exact .inl rfl
    | div => exact .inr rfl
    | _ => cases included

theorem eq_of_includes {chain other : Chain} {operator : Operator}
    (included : chain.includes operator = true) (elsewhere : other.includes operator = true) :
    other = chain := by
  cases chain with
  | additive =>
    cases other with
    | additive => rfl
    | multiplicative => rcases eq_joint_or_inverse included with rfl | rfl <;> cases elsewhere
  | multiplicative =>
    cases other with
    | additive => rcases eq_joint_or_inverse included with rfl | rfl <;> cases elsewhere
    | multiplicative => rfl

end Chain

/-- What the text of a tree is read as: alone, and behind another tree and the operator that goes on
with a chain. -/
structure Regrouped (α : Type u) where
  alone : Expr α
  behind : Chain → Expr α → Expr α

namespace Regrouped

variable {α : Type u}

def plain (tree : Expr α) : Regrouped α where
  alone := tree
  behind chain before := .binary chain.joint before tree

def joined (operator : Operator) (left : Expr α) (right : Regrouped α) : Expr α :=
  match operator with
  | .add => right.behind .additive left
  | .mul => right.behind .multiplicative left
  | _ => .binary operator left right.alone

def operation (operator : Operator) (left right : Regrouped α) : Regrouped α where
  alone := joined operator left.alone right
  behind chain before :=
    if chain.includes operator then joined operator (left.behind chain before) right
    else .binary chain.joint before (joined operator left.alone right)

end Regrouped

namespace Expr

variable {α : Type u} [Neg α] [Numeral α]

mutual

def regroup : Expr α → Regrouped α
  | number literal =>
    .plain (if Numeral.isNegative literal then .neg (.number (-literal)) else .number literal)
  | var => .plain .var
  | neg operand => .plain (.neg operand.regroup.alone)
  | binary operator left right => .operation operator left.regroup right.regroup
  | call function arguments => .plain (.call function (regroupAll arguments))

def regroupAll : List (Expr α) → List (Expr α)
  | [] => []
  | argument :: arguments => argument.regroup.alone :: regroupAll arguments

end

def regrouped (tree : Expr α) : Expr α := tree.regroup.alone

theorem length_regroupAll (arguments : List (Expr α)) :
    (regroupAll arguments).length = arguments.length := by
  induction arguments with
  | nil => rfl
  | cons argument arguments ih => rw [regroupAll, List.length_cons, ih, List.length_cons]

end Expr

/-! ### Meaning over any field -/

theorem Exact.lift₂_assoc {K : Type u} {inner outer : K → K → Exact K}
    (assoc : ∀ a b c, lift₂ outer (inner a b) (known c) = lift₂ inner (known a) (outer b c))
    (a b c : Exact K) : lift₂ outer (lift₂ inner a b) c = lift₂ inner a (lift₂ outer b c) := by
  cases a with
  | undefined => rfl
  | known a =>
    cases b with
    | undefined => rfl
    | known b =>
      cases c with
      | known c => exact assoc a b c
      | undefined =>
        change lift₂ outer (inner a b) undefined = undefined
        cases inner a b <;> rfl

/-- A meaning of powers and of functions, which may be undefined anywhere and need not even pass an
undefined operand on. -/
structure Interpretation (K : Type u) where
  power : Exact K → Exact K → Exact K
  call : Elementary → List (Exact K) → Exact K

namespace Interpretation

variable {K : Type u} [Field K] [DecidableEq K]

/-- The operators of the field are undefined where an operand is, and a quotient where the divisor
is zero. -/
def operate (interpretation : Interpretation K) : Operator → Exact K → Exact K → Exact K
  | .add => Exact.lift₂ fun left right => .known (left + right)
  | .sub => Exact.lift₂ fun left right => .known (left - right)
  | .mul => Exact.lift₂ fun left right => .known (left * right)
  | .div => Exact.lift₂ Exact.divide
  | .pow => interpretation.power

def negate : Exact K → Exact K := Exact.lift fun value => .known (-value)

theorem operate_assoc (interpretation : Interpretation K) {chain : Chain} {operator : Operator}
    (included : chain.includes operator = true) (a b c : Exact K) :
    interpretation.operate operator (interpretation.operate chain.joint a b) c =
      interpretation.operate chain.joint a (interpretation.operate operator b c) := by
  rcases Chain.eq_joint_or_inverse included with rfl | rfl
  · cases chain with
    | additive =>
      refine Exact.lift₂_assoc ?_ a b c
      intro a b c
      exact congrArg Exact.known (add_assoc a b c)
    | multiplicative =>
      refine Exact.lift₂_assoc ?_ a b c
      intro a b c
      exact congrArg Exact.known (mul_assoc a b c)
  · cases chain with
    | additive =>
      refine Exact.lift₂_assoc ?_ a b c
      intro a b c
      exact congrArg Exact.known (add_sub_assoc a b c)
    | multiplicative =>
      refine Exact.lift₂_assoc ?_ a b c
      intro a b c
      simp only [Exact.lift₂, Exact.divide]
      by_cases zero : c = 0
      · rw [if_pos zero, if_pos zero]
      · rw [if_neg zero, if_neg zero, mul_div_assoc]

end Interpretation

namespace Expr

variable {α : Type u} {K : Type*} [Field K] [DecidableEq K]

mutual

def meaning (interpretation : Interpretation K) (literal : α → Exact K) (point : Exact K) :
    Expr α → Exact K
  | number value => literal value
  | var => point
  | neg operand => Interpretation.negate (meaning interpretation literal point operand)
  | binary operator left right =>
    interpretation.operate operator (meaning interpretation literal point left)
      (meaning interpretation literal point right)
  | call function arguments =>
    interpretation.call function (meaningAll interpretation literal point arguments)

def meaningAll (interpretation : Interpretation K) (literal : α → Exact K) (point : Exact K) :
    List (Expr α) → List (Exact K)
  | [] => []
  | argument :: arguments =>
    meaning interpretation literal point argument ::
      meaningAll interpretation literal point arguments

end

section Values

variable [ExactMeaning K]

def scalarInterpretation : Interpretation K := ⟨Scalar.pow, Elementary.apply⟩

mutual

/-- Values over exact arithmetic are meanings. -/
theorem value_eq_meaning (literal : α → Exact K) (point : Exact K) (tree : Expr α) :
    tree.value literal point = tree.meaning scalarInterpretation literal point := by
  match tree with
  | number value => rfl
  | var => rfl
  | neg operand =>
    rw [value, meaning, value_eq_meaning literal point operand]
    rfl
  | binary operator left right =>
    rw [value, meaning, value_eq_meaning literal point left, value_eq_meaning literal point right]
    cases operator <;> rfl
  | call function arguments =>
    rw [value, meaning, valueAll_eq_meaningAll literal point arguments]
    rfl

theorem valueAll_eq_meaningAll (literal : α → Exact K) (point : Exact K)
    (arguments : List (Expr α)) :
    valueAll literal point arguments = meaningAll scalarInterpretation literal point arguments := by
  match arguments with
  | [] => rfl
  | argument :: others =>
    rw [valueAll, meaningAll, value_eq_meaning literal point argument,
      valueAll_eq_meaningAll literal point others]

end

end Values

end Expr

section Meaning

variable {α : Type u} {K : Type*} [Field K] [DecidableEq K]

/-- What is read has the meaning of the tree, alone and behind another tree. -/
structure Regrouped.Means (interpretation : Interpretation K) (literal : α → Exact K)
    (point : Exact K) (regrouped : Regrouped α) (tree : Expr α) : Prop where
  alone : regrouped.alone.meaning interpretation literal point =
    tree.meaning interpretation literal point
  behind (chain : Chain) (before : Expr α) :
    (regrouped.behind chain before).meaning interpretation literal point =
      interpretation.operate chain.joint (before.meaning interpretation literal point)
        (tree.meaning interpretation literal point)

variable {interpretation : Interpretation K} {literal : α → Exact K} {point : Exact K}

namespace Regrouped.Means

theorem plain {tree read : Expr α} (same : read.meaning interpretation literal point =
      tree.meaning interpretation literal point) :
    (Regrouped.plain read).Means interpretation literal point tree := by
  constructor
  · exact same
  · intro chain before
    change interpretation.operate _ _ (read.meaning interpretation literal point) = _
    rw [same]

theorem joined {right : Regrouped α} {tree : Expr α}
    (means : right.Means interpretation literal point tree) (operator : Operator) (left : Expr α) :
    (Regrouped.joined operator left right).meaning interpretation literal point =
      interpretation.operate operator (left.meaning interpretation literal point)
        (tree.meaning interpretation literal point) := by
  have separate : (Expr.binary operator left right.alone).meaning interpretation literal point =
      interpretation.operate operator (left.meaning interpretation literal point)
        (tree.meaning interpretation literal point) := by
    rw [Expr.meaning, means.alone]
  cases operator with
  | add => exact means.behind .additive left
  | mul => exact means.behind .multiplicative left
  | _ => exact separate

theorem operation {left right : Regrouped α} {leftTree rightTree : Expr α}
    (leftMeans : left.Means interpretation literal point leftTree)
    (rightMeans : right.Means interpretation literal point rightTree) (operator : Operator) :
    (Regrouped.operation operator left right).Means interpretation literal point
      (.binary operator leftTree rightTree) := by
  have alone : (Regrouped.joined operator left.alone right).meaning interpretation literal point =
      interpretation.operate operator (leftTree.meaning interpretation literal point)
        (rightTree.meaning interpretation literal point) := by
    rw [rightMeans.joined, leftMeans.alone]
  constructor
  · exact alone
  · intro chain before
    simp only [Regrouped.operation, Expr.meaning]
    by_cases included : chain.includes operator = true
    · rw [if_pos included, rightMeans.joined, leftMeans.behind,
        interpretation.operate_assoc included]
    · rw [if_neg included, Expr.meaning, alone]

end Regrouped.Means

namespace Expr

variable [Neg α] [Numeral α]

mutual

/-- Regrouping keeps the meaning, if a literal with a minus is read as the opposite of its
opposite. -/
theorem regroup_means (interpretation : Interpretation K) {literal : α → Exact K}
    (opposite : ∀ value, Interpretation.negate (literal (-value)) = literal value)
    (point : Exact K) (tree : Expr α) :
    tree.regroup.Means interpretation literal point tree := by
  match tree with
  | number value =>
    refine .plain ?_
    split
    · exact opposite value
    · rfl
  | var => exact .plain rfl
  | neg operand =>
    refine .plain ?_
    rw [meaning, meaning, (regroup_means interpretation opposite point operand).alone]
  | binary operator left right =>
    exact (regroup_means interpretation opposite point left).operation
      (regroup_means interpretation opposite point right) operator
  | call function arguments =>
    refine .plain ?_
    rw [meaning, meaning, meaningAll_regroupAll interpretation opposite point arguments]

theorem meaningAll_regroupAll (interpretation : Interpretation K) {literal : α → Exact K}
    (opposite : ∀ value, Interpretation.negate (literal (-value)) = literal value)
    (point : Exact K) (arguments : List (Expr α)) :
    meaningAll interpretation literal point (regroupAll arguments) =
      meaningAll interpretation literal point arguments := by
  match arguments with
  | [] => rfl
  | argument :: others =>
    rw [regroupAll, meaningAll, meaningAll,
      (regroup_means interpretation opposite point argument).alone,
      meaningAll_regroupAll interpretation opposite point others]

end

end Expr

end Meaning

end Tangency
