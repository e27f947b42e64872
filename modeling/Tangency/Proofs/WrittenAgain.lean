/-
The text of a tree is read as a tree with the same text.

Reading a text back regroups chains to the left and turns a literal with a minus into a negation.
Parentheses stand exactly where a chain is not gone on with, so neither can be seen in the text.
The trees that are read back as they are therefore are those that hold nothing of both kinds, and
every tree that is read back is one of them.
-/

import Tangency.Proofs.RoundTrip

namespace Tangency

section Writing

variable {α : Type} [Numeral α]

namespace Expr

theorem written_binary_congr (operator : Operator) {left left' right right' : Expr α}
    (leftLevel : left.level = left'.level) (leftWritten : left.written = left'.written)
    (rightLevel : right.level = right'.level) (rightWritten : right.written = right'.written) :
    (binary operator left right).written = (binary operator left' right').written := by
  rw [written, written, leftLevel, leftWritten, rightLevel, rightWritten]

theorem written_chain_assoc {chain : Chain} {operator : Operator}
    (included : chain.includes operator = true) (before left right : Expr α) :
    (binary operator (binary chain.joint before left) right).written =
      (binary chain.joint before (binary operator left right)).written := by
  have leftBare : enclosesLeft operator (binary chain.joint before left).level = false := by
    rcases Chain.eq_joint_or_inverse included with rfl | rfl <;> cases chain <;> rfl
  have rightBare : enclosesRight chain.joint (binary operator left right).level = false := by
    rcases Chain.eq_joint_or_inverse included with rfl | rfl <;> cases chain <;> rfl
  have sameEnclosure (operandLevel : Nat) :
      enclosesRight chain.joint operandLevel = enclosesLeft operator operandLevel := by
    rcases Chain.eq_joint_or_inverse included with rfl | rfl <;> cases chain <;> rfl
  simp only [written, leftBare, rightBare, sameEnclosure, enclosedIf, Bool.false_eq_true, if_false,
    List.append_assoc]

end Expr

/-- A literal with a minus is written as a minus in front of its opposite, which has none. -/
def SignedText [Neg α] (literal : α) : Prop :=
  Numeral.isNegative literal = true →
    Numeral.isNegative (-literal) = false ∧ Numeral.text literal = '-' :: Numeral.text (-literal)

/-- What a tree is read as has the level and the text of the tree, alone and behind another tree. -/
structure Regrouped.WritesAs (regrouped : Regrouped α) (tree : Expr α) : Prop where
  level_alone : regrouped.alone.level = tree.level
  alone : regrouped.alone.written = tree.written
  level_behind (chain : Chain) (before : Expr α) :
    (regrouped.behind chain before).level = chain.joint.level
  behind (chain : Chain) (before : Expr α) :
    (regrouped.behind chain before).written = (Expr.binary chain.joint before tree).written

namespace Regrouped.WritesAs

theorem plain {tree read : Expr α} (levelEq : read.level = tree.level)
    (writtenEq : read.written = tree.written) : (Regrouped.plain read).WritesAs tree where
  level_alone := levelEq
  alone := writtenEq
  level_behind _ _ := rfl
  behind chain _ := Expr.written_binary_congr chain.joint rfl rfl levelEq writtenEq

variable {right : Regrouped α} {tree : Expr α}

theorem level_joined (writes : right.WritesAs tree) (operator : Operator) (left : Expr α) :
    (Regrouped.joined operator left right).level = operator.level := by
  cases operator with
  | add => exact writes.level_behind .additive left
  | mul => exact writes.level_behind .multiplicative left
  | _ => rfl

theorem joined (writes : right.WritesAs tree) (operator : Operator) (left : Expr α) :
    (Regrouped.joined operator left right).written = (Expr.binary operator left tree).written := by
  cases operator with
  | add => exact writes.behind .additive left
  | mul => exact writes.behind .multiplicative left
  | _ => exact Expr.written_binary_congr _ rfl rfl writes.level_alone writes.alone

theorem operation {left right : Regrouped α} {leftTree rightTree : Expr α}
    (leftWrites : left.WritesAs leftTree) (rightWrites : right.WritesAs rightTree)
    (operator : Operator) :
    (Regrouped.operation operator left right).WritesAs (.binary operator leftTree rightTree) where
  level_alone := rightWrites.level_joined operator left.alone
  alone := (rightWrites.joined operator left.alone).trans
    (Expr.written_binary_congr operator leftWrites.level_alone leftWrites.alone rfl rfl)
  level_behind chain before := by
    simp only [Regrouped.operation]
    split
    · rename_i included
      exact (rightWrites.level_joined operator _).trans (Chain.level_eq included)
    · rfl
  behind chain before := by
    simp only [Regrouped.operation]
    split
    · rename_i included
      have grouped := Expr.written_binary_congr operator (leftWrites.level_behind chain before)
        (leftWrites.behind chain before) (rfl : rightTree.level = rightTree.level) rfl
      rw [rightWrites.joined operator, grouped, Expr.written_chain_assoc included]
    · refine Expr.written_binary_congr chain.joint rfl rfl
        (rightWrites.level_joined operator left.alone) ?_
      rw [rightWrites.joined operator]
      exact Expr.written_binary_congr operator leftWrites.level_alone leftWrites.alone rfl rfl

end Regrouped.WritesAs

end Writing

namespace Expr

variable {α : Type} [Neg α] [Numeral α]

def SignedPart (part : Expr α) : Prop := ∀ literal, part = number literal → SignedText literal

omit [Neg α] in
theorem level_number {literal : α} (unsigned : Numeral.isNegative literal = false) :
    (number literal).level = atomLevel :=
  if_neg (Bool.eq_false_iff.mp unsigned)

mutual

theorem writesAs_regroup (tree : Expr α) (signed : tree.Throughout SignedPart) :
    tree.regroup.WritesAs tree := by
  match tree with
  | number literal =>
    by_cases negative : Numeral.isNegative literal = true
    · obtain ⟨opposite, textEq⟩ := signed literal rfl negative
      rw [regroup, if_pos negative]
      refine .plain (if_pos negative).symm ?_
      rw [written, written, level_number opposite, textEq]
      rfl
    · rw [regroup, if_neg negative]
      exact .plain rfl rfl
  | var => exact .plain rfl rfl
  | neg operand =>
    have operandWrites := writesAs_regroup operand signed.2
    refine .plain rfl ?_
    rw [written, written, operandWrites.level_alone, operandWrites.alone]
  | binary operator left right =>
    exact (writesAs_regroup left signed.2.1).operation (writesAs_regroup right signed.2.2) operator
  | call function arguments =>
    refine .plain rfl ?_
    rw [written, written, writtenAll_regroupAll arguments signed.2]

theorem writtenAll_regroupAll (arguments : List (Expr α))
    (signed : ThroughoutAll SignedPart arguments) :
    writtenAll (regroupAll arguments) = writtenAll arguments := by
  match arguments with
  | [] => rfl
  | [argument] => exact (writesAs_regroup argument signed.1).alone
  | argument :: next :: others =>
    have later := writtenAll_regroupAll (next :: others) signed.2
    rw [regroupAll] at later
    rw [regroupAll, regroupAll, writtenAll, later, (writesAs_regroup argument signed.1).alone,
      writtenAll]

end

theorem text_regrouped (tree : Expr α) (signed : tree.Throughout SignedPart) :
    tree.regrouped.text = tree.text := by
  rw [← String.toList_inj, toList_text, toList_text]
  exact (tree.writesAs_regroup signed).alone

section Exact

omit [Neg α]

/-- The part is no literal with a minus, and neither a tree of `+` or `-` behind `+` nor a tree of
`*` or `/` behind `*`. -/
def WrittenExactly : Expr α → Prop
  | number literal => Numeral.isNegative literal = false
  | binary .add _ (binary .add _ _) | binary .add _ (binary .sub _ _) => False
  | binary .mul _ (binary .mul _ _) | binary .mul _ (binary .div _ _) => False
  | _ => True

theorem writtenExactly_joint_iff (chain : Chain) (left right : Expr α) :
    (binary chain.joint left right).WrittenExactly ↔ right.level ≠ chain.joint.level := by
  cases right with
  | number literal =>
    have apart : (number literal).level ≠ chain.joint.level := by
      rw [level]
      cases chain <;> split <;> decide
    cases chain <;> exact iff_of_true trivial apart
  | binary operator first second =>
    cases chain <;> cases operator <;> first
      | exact iff_of_false id fun other => other rfl
      | exact iff_of_true trivial (Nat.ne_of_beq_eq_false rfl)
  | _ => cases chain <;> exact iff_of_true trivial (Nat.ne_of_beq_eq_false rfl)

end Exact

mutual

theorem regroup_of_writtenExactly (tree : Expr α) (exact : tree.Throughout WrittenExactly) :
    tree.regroup.alone = tree := by
  match tree with
  | number literal =>
    have unsigned : Numeral.isNegative literal = false := exact
    rw [regroup, if_neg (Bool.eq_false_iff.mp unsigned)]
    rfl
  | var => rfl
  | neg operand => exact congrArg neg (regroup_of_writtenExactly operand exact.2)
  | binary operator left right =>
    have leftSame := regroup_of_writtenExactly left exact.2.1
    have rightSame := regroup_of_writtenExactly right exact.2.2
    have behind (chain : Chain) (joins : operator = chain.joint) :
        right.regroup.behind chain left = binary chain.joint left right := by
      rw [joins] at exact
      rw [behind_of_level_ne ((writtenExactly_joint_iff chain left right).mp exact.1), rightSame]
    change Regrouped.joined operator left.regroup.alone right.regroup = _
    rw [leftSame]
    cases operator with
    | add => exact behind .additive rfl
    | mul => exact behind .multiplicative rfl
    | _ => exact congrArg (binary _ left) rightSame
  | call function arguments =>
    exact congrArg (call function) (regroupAll_of_writtenExactly arguments exact.2)

theorem regroupAll_of_writtenExactly (arguments : List (Expr α))
    (exact : ThroughoutAll WrittenExactly arguments) : regroupAll arguments = arguments := by
  match arguments with
  | [] => rfl
  | argument :: others =>
    rw [regroupAll, regroup_of_writtenExactly argument exact.1,
      regroupAll_of_writtenExactly others exact.2]

end

end Expr

/-! ### Every tree that is read back is read as it is -/

theorem Chain.includes_of_level_eq {chain : Chain} {operator : Operator}
    (same : operator.level = chain.joint.level) : chain.includes operator = true := by
  cases chain <;> cases operator <;> first
    | rfl
    | exact absurd same (by decide)

/-- What a tree is read as, alone or behind another such tree, is read as it is. -/
structure Regrouped.Settled {α : Type} [Numeral α] (regrouped : Regrouped α) : Prop where
  alone : regrouped.alone.Throughout Expr.WrittenExactly
  behind (chain : Chain) {before : Expr α} (exact : before.Throughout Expr.WrittenExactly) :
    (regrouped.behind chain before).Throughout Expr.WrittenExactly

namespace Regrouped.Settled

variable {α : Type} [Numeral α]

theorem plain {read : Expr α} (exact : read.Throughout Expr.WrittenExactly)
    (tight : Expr.negationLevel ≤ read.level) : (Regrouped.plain read).Settled where
  alone := exact
  behind chain before beforeExact := by
    have loose : chain.joint.level < Expr.negationLevel := by cases chain <;> decide
    have other := Nat.ne_of_gt (Nat.lt_of_lt_of_le loose tight)
    exact ⟨(Expr.writtenExactly_joint_iff chain before read).mpr other, beforeExact, exact⟩

theorem joined {right : Regrouped α} (settled : right.Settled) (operator : Operator)
    {left : Expr α} (exact : left.Throughout Expr.WrittenExactly) :
    (Regrouped.joined operator left right).Throughout Expr.WrittenExactly := by
  cases operator with
  | add => exact settled.behind .additive exact
  | mul => exact settled.behind .multiplicative exact
  | _ => exact ⟨trivial, exact, settled.alone⟩

theorem operation {left right : Regrouped α} {tree : Expr α} (leftSettled : left.Settled)
    (rightSettled : right.Settled) (rightWrites : right.WritesAs tree) (operator : Operator) :
    (Regrouped.operation operator left right).Settled where
  alone := rightSettled.joined operator leftSettled.alone
  behind chain before exact := by
    have joinedExact := rightSettled.joined operator leftSettled.alone
    simp only [Regrouped.operation]
    split
    · exact rightSettled.joined operator (leftSettled.behind chain exact)
    · rename_i excluded
      refine ⟨(Expr.writtenExactly_joint_iff chain _ _).mpr ?_, exact, joinedExact⟩
      rw [rightWrites.level_joined operator]
      exact fun same => excluded (Chain.includes_of_level_eq same)

end Regrouped.Settled

namespace Expr

variable {α : Type} [Neg α] [Numeral α]

mutual

theorem settled_regroup (tree : Expr α) (signed : tree.Throughout SignedPart) :
    tree.regroup.Settled := by
  match tree with
  | number literal =>
    by_cases negative : Numeral.isNegative literal = true
    · obtain ⟨opposite, -⟩ := signed literal rfl negative
      rw [regroup, if_pos negative]
      exact .plain ⟨trivial, opposite⟩ (Nat.le_refl negationLevel)
    · have unsigned := eq_false_of_ne_true negative
      rw [regroup, if_neg negative]
      refine .plain unsigned ?_
      rw [level_number unsigned]
      decide
  | var => exact .plain trivial (by decide : 3 ≤ 5)
  | neg operand =>
    exact .plain ⟨trivial, (settled_regroup operand signed.2).alone⟩ (Nat.le_refl negationLevel)
  | binary operator left right =>
    exact .operation (settled_regroup left signed.2.1) (settled_regroup right signed.2.2)
      (writesAs_regroup right signed.2.2) operator
  | call function arguments =>
    exact .plain ⟨trivial, throughout_regroupAll arguments signed.2⟩ (by decide : 3 ≤ 5)

theorem throughout_regroupAll (arguments : List (Expr α))
    (signed : ThroughoutAll SignedPart arguments) :
    ThroughoutAll WrittenExactly (regroupAll arguments) := by
  match arguments with
  | [] => exact trivial
  | argument :: others =>
    exact ⟨(settled_regroup argument signed.1).alone, throughout_regroupAll others signed.2⟩

end

theorem regrouped_eq_self_iff (tree : Expr α) (signed : tree.Throughout SignedPart) :
    tree.regrouped = tree ↔ tree.Throughout WrittenExactly := by
  constructor
  · intro same
    rw [← same]
    exact (tree.settled_regroup signed).alone
  · exact tree.regroup_of_writtenExactly

end Expr

namespace Binary64

theorem shortestDecimal_neg (x : Binary64) : shortestDecimal (-x) = shortestDecimal x := by
  unfold shortestDecimal exactDecimal
  rw [magnitudeNumerator_neg, magnitudeDenominator_neg, magnitudeBits_neg, power_neg]

theorem signedText {x : Binary64} (finite : x.isFinite = true) : SignedText x := by
  intro isMinus
  have negative : x.isNegative = true := isMinus
  have opposite : (-x).isNegative = false := by rw [isNegative_neg, negative]; rfl
  have oppositeFinite : (-x).isFinite = true := (isFinite_neg x).trans finite
  refine ⟨opposite, ?_⟩
  change text x = '-' :: text (-x)
  rw [text_eq finite, text_eq oppositeFinite, negative, opposite, shortestDecimal_neg]
  rfl

end Binary64

theorem Expr.signed_of_literalsFinite {tree : Expr Binary64} (finite : tree.LiteralsFinite) :
    tree.Throughout SignedPart :=
  finite.imp fun _ partFinite literal same => Binary64.signedText (partFinite literal same)

/-- What the text of a tree over finite doubles with accepted calls is read as has the same text,
and is the tree itself exactly if the tree has no literal with a minus, no `+` whose right operand
is a sum or a difference, and no `*` whose right operand is a product or a quotient. -/
theorem text_is_fixed_by_reading (tree again : Expr Binary64) (finite : tree.LiteralsFinite)
    (accepted : tree.CallsAccepted) (read : Expr.ofText? tree.text = .ok again) :
    again.text = tree.text ∧ (again = tree ↔ tree.Throughout Expr.WrittenExactly) := by
  have signed := Expr.signed_of_literalsFinite finite
  rcases Expr.ofText?_text_of_literalsFinite finite accepted with
    ⟨position, fault, failed, -⟩ | regrouped
  · rw [failed] at read
    cases read
  · cases regrouped.symm.trans read
    exact ⟨tree.text_regrouped signed, tree.regrouped_eq_self_iff signed⟩

/-- The tree of `x + (x - -2)` with `-2` as a literal, and what its text `x + x - -2` is read as. -/
def sumOfDifference : Expr Binary64 :=
  .binary .add .var (.binary .sub .var (.number ⟨0xC000000000000000⟩))

def differenceOfSum : Expr Binary64 :=
  .binary .sub (.binary .add .var .var) (.neg (.number ⟨0x4000000000000000⟩))

theorem text_is_fixed_sumOfDifference :
    sumOfDifference.LiteralsFinite ∧ sumOfDifference.CallsAccepted ∧
      Expr.ofText? sumOfDifference.text = .ok differenceOfSum ∧
      differenceOfSum.text = sumOfDifference.text ∧
      (differenceOfSum = sumOfDifference ↔ sumOfDifference.Throughout Expr.WrittenExactly) := by
  have finite : sumOfDifference.LiteralsFinite := by
    refine ⟨nofun, nofun, nofun, nofun, ?_⟩
    intro literal same
    cases same
    decide +kernel
  have accepted : sumOfDifference.CallsAccepted := ⟨nofun, nofun, nofun, nofun, nofun⟩
  have isRead : (match Expr.ofText? (α := Binary64) sumOfDifference.text with
      | .ok _ => true
      | .error _ => false) = true := by
    decide +kernel
  have read : Expr.ofText? sumOfDifference.text = .ok differenceOfSum := by
    rcases Expr.ofText?_text_of_literalsFinite finite accepted with
      ⟨position, fault, failed, -⟩ | regrouped
    · rw [failed] at isRead
      cases isRead
    · exact regrouped
  exact ⟨finite, accepted, read, text_is_fixed_by_reading _ _ finite accepted read⟩

end Tangency
