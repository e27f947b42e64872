/-
The text of a tree is a formula, and this is the formula.

The characters that a tree is written in are scanned as the tokens of a phrase, wherever
they stand.  Its rank is as tight as the level of the tree, so the parentheses that writing
puts are enough; where it puts none, the operators of the tree go on with the chain around
it.  The tree of the phrase is the regrouped tree, and its extent that of the written tree.

Literals are taken to be written as number forms that read back, with a minus in front of
those that have one.
-/

import Tangency.Expr.Written
import Tangency.Proofs.Denotation
import Tangency.Proofs.Regrouping
import Tangency.Proofs.ScannedPieces
import Tangency.Proofs.WrittenExtent

namespace Tangency

variable {α : Type} [Neg α] [Numeral α]

/-- A literal is written as a number form of its magnitude, with the minus in front. -/
def Legible (literal : α) : Prop :=
  ∃ word value, word ∈ numberForms ∧ (Decimal.split word).value? = some value ∧
    Numeral.ofDecimal value = (if Numeral.isNegative literal then -literal else literal) ∧
    Numeral.text literal = if Numeral.isNegative literal then '-' :: word else word

/-- A literal is legible, and a call has a number of arguments that its function accepts. -/
def Expr.LegiblePart : Expr α → Prop
  | number literal => Legible literal
  | call function arguments => function.acceptsCount arguments.length = true
  | _ => True

def Rank.level : Rank → Nat
  | .operand => 5
  | .power => 4
  | .unary => 3
  | .product => 2
  | .sum => 1

namespace Chain

def whole : Chain → Rank
  | additive => .sum
  | multiplicative => .product

variable {chain : Chain} {operator : Operator}

theorem level_whole (chain : Chain) : chain.whole.level = chain.joint.level := by
  cases chain <;> rfl

theorem level_eq (included : chain.includes operator = true) :
    operator.level = chain.joint.level := by
  rcases eq_joint_or_inverse included with rfl | rfl
  · rfl
  · cases chain <;> rfl

end Chain

namespace Phrase

omit [Neg α]

variable {chain : Chain}

def append : Phrase α (.links chain) → Phrase α (.links chain) → Phrase α (.links chain)
  | .noLink, behind => behind
  | .link sign operator joins right later, behind =>
    .link sign operator joins right (later.append behind)

theorem tokens_append (links behind : Phrase α (.links chain)) :
    (links.append behind).tokens = links.tokens ++ behind.tokens := by
  match links with
  | .noLink =>
    rw [append]
    rfl
  | .link sign operator joins right later =>
    simp only [append, tokens, tokens_append later behind, List.cons_append, List.append_assoc]

theorem meaning_append (links behind : Phrase α (.links chain)) (left : Expr α) :
    (links.append behind).meaning left = behind.meaning (links.meaning left) := by
  match links with
  | .noLink =>
    rw [append]
    rfl
  | .link sign operator joins right later =>
    rw [append]
    exact meaning_append later behind _

theorem callsAccepted_append {links behind : Phrase α (.links chain)}
    (accepted : links.CallsAccepted) (acceptedBehind : behind.CallsAccepted) :
    (links.append behind).CallsAccepted := by
  match links with
  | .noLink =>
    rw [append]
    exact acceptedBehind
  | .link sign operator joins right later =>
    rw [append]
    exact ⟨accepted.1, callsAccepted_append accepted.2 acceptedBehind⟩

theorem extent_append (links behind : Phrase α (.links chain)) :
    (links.append behind).extent = links.extent.joined behind.extent := by
  match links with
  | .noLink =>
    rw [append]
    exact (Extent.none_joined behind.extent).symm
  | .link sign operator joins right later =>
    rw [append, extent_link, extent_link, extent_append later behind]
    simp only [Extent.joined_assoc]

end Phrase

section Readable

omit [Neg α]

def Readable (position : Nat) (written : List Char) (rank : Rank) (tree : Expr α)
    (extent : Extent) : Prop :=
  ∃ phrase : Phrase α (.expr rank),
    ScansAs position written phrase.tokens ∧ phrase.meaning = tree ∧ phrase.CallsAccepted ∧
      phrase.extent = extent

/-- The characters are those of a chain, alone or going on with another. -/
def ReadableChain (position : Nat) (written : List Char) (chain : Chain)
    (regrouped : Regrouped α) (extent : Extent) : Prop :=
  ∃ (first : Phrase α (.expr chain.operand)) (later : Phrase α (.links chain)),
    ScansAs position written (first.tokens ++ later.tokens) ∧
      (first.CallsAccepted ∧ later.CallsAccepted) ∧
      first.extent.joined later.extent = extent ∧
      later.meaning first.meaning = regrouped.alone ∧
      ∀ before, later.meaning (.binary chain.joint before first.meaning) =
        regrouped.behind chain before

variable {position : Nat} {written : List Char} {extent : Extent}

namespace Readable

variable {tree : Expr α} {rank : Rank}

theorem power (readable : Readable position written rank tree extent) (tight : 4 ≤ rank.level) :
    Readable position written .power tree extent := by
  cases rank with
  | operand =>
    rcases readable with ⟨operand, scans, treeEq, accepted, extentEq⟩
    exact ⟨.unraised operand, scans, treeEq, accepted, extentEq⟩
  | power => exact readable
  | _ => exact absurd tight (by decide)

theorem unary (readable : Readable position written rank tree extent) (tight : 3 ≤ rank.level) :
    Readable position written .unary tree extent := by
  by_cases tighter : 4 ≤ rank.level
  · rcases readable.power tighter with ⟨power, scans, treeEq, accepted, extentEq⟩
    exact ⟨.unsigned power, scans, treeEq, accepted, extentEq⟩
  · cases rank with
    | unary => exact readable
    | operand => exact absurd (by decide) tighter
    | power => exact absurd (by decide) tighter
    | _ => exact absurd tight (by decide)

end Readable

theorem ReadableChain.of_operand {chain : Chain} {regrouped : Regrouped α}
    (readable : Readable position written chain.operand regrouped.alone extent)
    (plain : ∀ before, regrouped.behind chain before = .binary chain.joint before regrouped.alone) :
    ReadableChain position written chain regrouped extent := by
  rcases readable with ⟨operand, scans, treeEq, accepted, extentEq⟩
  refine ⟨operand, .noLink, ?_, ⟨accepted, trivial⟩, ?_, treeEq, ?_⟩
  · rw [Phrase.tokens, List.append_nil]
    exact scans
  · exact (Extent.joined_none operand.extent).trans extentEq
  · intro before
    rw [plain, ← treeEq]
    rfl

theorem ReadableChain.whole {chain : Chain} {regrouped : Regrouped α}
    (readable : ReadableChain position written chain regrouped extent) :
    Readable position written chain.whole regrouped.alone extent := by
  rcases readable with ⟨first, later, scans, accepted, extentEq, alone, -⟩
  cases chain with
  | additive => exact ⟨.sum first later, scans, alone, accepted, extentEq⟩
  | multiplicative => exact ⟨.product first later, scans, alone, accepted, extentEq⟩

namespace Readable

variable {tree : Expr α} {rank : Rank}

theorem product (readable : Readable position written rank tree extent) (tight : 2 ≤ rank.level) :
    Readable position written .product tree extent := by
  by_cases tighter : 3 ≤ rank.level
  · have chain : ReadableChain position written .multiplicative (.plain tree) extent :=
      .of_operand (readable.unary tighter) fun before => rfl
    exact chain.whole
  · cases rank with
    | product => exact readable
    | sum => exact absurd tight (by decide)
    | _ => exact absurd (by decide) tighter

theorem looser (readable : Readable position written rank tree extent) {loose : Rank}
    (tight : loose.level ≤ rank.level) : Readable position written loose tree extent := by
  cases loose with
  | operand =>
    cases rank with
    | operand => exact readable
    | _ => exact absurd tight (by decide)
  | power => exact readable.power tight
  | unary => exact readable.unary tight
  | product => exact readable.product tight
  | sum =>
    by_cases tighter : 2 ≤ rank.level
    · have chain : ReadableChain position written .additive (.plain tree) extent :=
        .of_operand (readable.product tighter) fun before => rfl
      exact chain.whole
    · cases rank with
      | sum => exact readable
      | _ => exact absurd (by decide) tighter

end Readable

end Readable

/-! ### Written trees -/

/-- Wherever it stands, a tree is written as a phrase of every rank that is no tighter than its
level, and goes on with every chain that is no tighter. -/
structure Expr.Prints (tree : Expr α) : Prop where
  readable (position : Nat) (rank : Rank) (loose : rank.level ≤ tree.level) :
    Readable position tree.written rank tree.regroup.alone tree.writtenExtent
  chain (position : Nat) (chain : Chain) (loose : chain.joint.level ≤ tree.level) :
    ReadableChain position tree.written chain tree.regroup tree.writtenExtent

namespace Expr

omit [Neg α] in
theorem one_le_level (tree : Expr α) : 1 ≤ tree.level := by
  cases tree with
  | number literal =>
    rw [level]
    split <;> decide
  | binary operator left right =>
    rw [level]
    cases operator <;> decide
  | _ =>
    rw [level]
    decide

theorem behind_of_level_ne {tree : Expr α} {chain : Chain} (other : tree.level ≠ chain.joint.level)
    (before : Expr α) :
    tree.regroup.behind chain before = .binary chain.joint before tree.regroup.alone := by
  cases tree with
  | binary operator left right =>
    have excluded : ¬chain.includes operator = true :=
      fun included => other (Chain.level_eq included)
    simp only [regroup, Regrouped.operation, if_neg excluded]
  | _ => rfl

theorem Prints.of_readable {tree : Expr α} (rank : Rank) (levelEq : tree.level = rank.level)
    (unary : 3 ≤ rank.level)
    (plain : ∀ chain before,
      tree.regroup.behind chain before = .binary chain.joint before tree.regroup.alone)
    (readable : ∀ position,
      Readable position tree.written rank tree.regroup.alone tree.writtenExtent) :
    tree.Prints := by
  constructor
  · intro position loose tight
    exact (readable position).looser (levelEq ▸ tight)
  · intro position chain tight
    refine .of_operand ((readable position).looser ?_) (plain chain)
    cases chain with
    | additive => exact Nat.le_of_succ_le unary
    | multiplicative => exact unary

theorem Prints.of_chain {operator : Operator} {left right : Expr α} (chain : Chain)
    (included : chain.includes operator = true)
    (readable : ∀ position, ReadableChain position (binary operator left right).written chain
      (binary operator left right).regroup (binary operator left right).writtenExtent) :
    (binary operator left right).Prints := by
  have levelEq : (binary operator left right).level = chain.whole.level :=
    (Chain.level_eq included).trans chain.level_whole.symm
  constructor
  · intro position loose tight
    exact (readable position).whole.looser (levelEq ▸ tight)
  · intro position other tight
    by_cases same : other = chain
    · rw [same]
      exact readable position
    · have excluded : ¬other.includes operator = true :=
        fun elsewhere => same (Chain.eq_of_includes included elsewhere)
      refine .of_operand ((readable position).whole.looser ?_) ?_
      · -- Of two chains, only the tighter one can be an operand of the other.
        rw [levelEq] at tight
        cases other with
        | additive =>
          cases chain with
          | additive => exact absurd rfl same
          | multiplicative => exact Nat.le_refl 2
        | multiplicative =>
          cases chain with
          | additive => exact absurd tight (by decide)
          | multiplicative => exact absurd rfl same
      · intro before
        simp only [regroup, Regrouped.operation, if_neg excluded]

def openingToken (position : Nat) : Token α := ⟨.opening, String.ofList ['('], position⟩

def closingToken (position : Nat) : Token α := ⟨.closing, String.ofList [')'], position⟩

omit [Neg α] in
theorem scansAs_enclosed {position : Nat} {written : List Char} {tokens : List (Token α)}
    (scans : ScansAs (position + 1) written tokens) :
    ScansAs position ('(' :: (written ++ [')'])) (openingToken position ::
      (tokens ++ [closingToken (position + 1 + written.length)])) := by
  have closing : ScansAs (position + 1 + written.length) [')']
      [closingToken (α := α) (position + 1 + written.length)] :=
    .symbol rfl (.nil _)
  exact .symbol rfl
    (scans.append closing (List.cons_ne_nil _ _) (apart_of_symbol (by decide) []))

namespace Prints

variable {tree : Expr α}

theorem group (prints : tree.Prints) (position : Nat) :
    Readable position ('(' :: (tree.written ++ [')'])) .operand tree.regroup.alone
      tree.writtenExtent.deeper := by
  rcases prints.readable (position + 1) .sum tree.one_le_level with
    ⟨inner, scans, treeEq, accepted, extentEq⟩
  refine ⟨.group (openingToken position) rfl inner
    (closingToken (position + 1 + tree.written.length)) rfl, ?_, ?_, ?_, ?_⟩
  · exact scansAs_enclosed scans
  · exact treeEq
  · exact accepted
  · exact (Phrase.extent_group _ _ inner _ _).trans (congrArg Extent.deeper extentEq)

theorem enclosed (prints : tree.Prints) (position : Nat) (rank : Rank) {enclose : Bool}
    (tight : enclose = false → rank.level ≤ tree.level) :
    Readable position (enclosedIf enclose tree.written) rank tree.regroup.alone
      (tree.writtenExtent.enclosedIf enclose) := by
  cases enclose with
  | true =>
    have fits : rank.level ≤ Rank.operand.level := by cases rank <;> decide
    exact (prints.group position).looser fits
  | false => exact prints.readable position rank (tight rfl)

theorem enclosedChain (prints : tree.Prints) (position : Nat) (chain : Chain) :
    ReadableChain position (enclosedIf (decide (tree.level < chain.joint.level)) tree.written) chain
      tree.regroup (tree.writtenExtent.enclosedIf (decide (tree.level < chain.joint.level))) := by
  by_cases loose : tree.level < chain.joint.level
  · rw [decide_eq_true loose]
    have fits : chain.operand.level ≤ Rank.operand.level := by cases chain <;> decide
    exact .of_operand ((prints.group position).looser fits)
      (behind_of_level_ne (Nat.ne_of_lt loose))
  · rw [decide_eq_false loose]
    exact prints.chain position chain (Nat.le_of_not_lt loose)

end Prints

def operatorToken (operator : Operator) (position : Nat) : Token α :=
  ⟨.operator operator.symbol, String.ofList [operator.symbol], position⟩

omit [Neg α] in
theorem scansAs_operator (operator : Operator) {position : Nat} {written : List Char}
    {tokens : List (Token α)} (scans : ScansAs (position + 1) written tokens) :
    ScansAs position (operator.symbol :: written) (operatorToken operator position :: tokens) := by
  cases operator <;> exact .symbol rfl scans

theorem prints_number {literal : α} (legible : Legible literal) : (number literal).Prints := by
  rcases legible with ⟨word, value, isNumber, reads, valueEq, textEq⟩
  by_cases negative : Numeral.isNegative literal = true
  · rw [if_pos negative] at valueEq textEq
    refine .of_readable .unary (if_pos negative) (by decide) (fun chain before => rfl) ?_
    intro position
    have treeEq : (number literal).regroup.alone = .neg (.number (-literal)) := if_pos negative
    have extentEq : (number literal).writtenExtent = Extent.single.deeper := by
      rw [writtenExtent, if_pos negative]
    rw [written, textEq, treeEq, extentEq, ← valueEq]
    refine ⟨.minus (operatorToken .sub position) rfl (.unsigned (.unraised
      (.number ⟨.number (Numeral.ofDecimal value), String.ofList word, position + 1⟩ _ rfl))),
      ?_, ?_, ?_, ?_⟩
    · exact scansAs_operator .sub (.number isNumber reads)
    · rfl
    · exact trivial
    · rfl
  · rw [if_neg negative] at valueEq textEq
    refine .of_readable .operand (if_neg negative) (by decide) (fun chain before => rfl) ?_
    intro position
    have treeEq : (number literal).regroup.alone = .number literal := if_neg negative
    have extentEq : (number literal).writtenExtent = Extent.single := by
      rw [writtenExtent, if_neg negative]
    rw [written, textEq, treeEq, extentEq, ← valueEq]
    refine ⟨.number ⟨.number (Numeral.ofDecimal value), String.ofList word, position⟩ _ rfl,
      ?_, ?_, ?_, ?_⟩
    · exact .number isNumber reads
    · rfl
    · exact trivial
    · rfl

theorem prints_var : (var : Expr α).Prints := by
  refine .of_readable .operand rfl (by decide) (fun chain before => rfl) ?_
  intro position
  have isName : variableName.toList ∈ nameForms :=
    mem_nameForms.mpr ⟨'x', [], rfl, by decide, nofun⟩
  exact ⟨.var ⟨.name, String.ofList variableName.toList, position⟩ rfl rfl, .name isName, rfl,
    trivial, rfl⟩

theorem prints_neg {operand : Expr α} (prints : operand.Prints) : (neg operand).Prints := by
  refine .of_readable .unary rfl (by decide) (fun chain before => rfl) ?_
  intro position
  have tight : decide (operand.level ≤ negationLevel) = false → 3 ≤ operand.level := by
    intro bare
    have loose : ¬operand.level ≤ 3 := of_decide_eq_false bare
    omega
  rcases prints.enclosed (position + 1) .unary tight with
    ⟨negated, scans, treeEq, accepted, extentEq⟩
  refine ⟨.minus (operatorToken .sub position) rfl negated, ?_, ?_, ?_, ?_⟩
  · exact scansAs_operator .sub scans
  · exact congrArg Expr.neg treeEq
  · exact accepted
  · refine (Phrase.extent_minus _ _ negated).trans ?_
    rw [extentEq, writtenExtent]

omit [Neg α] in
theorem scansAs_writtenOperator (operator : Operator) {position : Nat} {later : List Char}
    {tokens : List (Token α)}
    (scans : ScansAs (position + (writtenOperator operator).length) later tokens) :
    ∃ signPosition, ScansAs position (writtenOperator operator ++ later)
      (operatorToken operator signPosition :: tokens) := by
  have spaced : ∀ {behind : Operator}, ScansAs (position + 3) later tokens →
      ScansAs position ([' ', behind.symbol, ' '] ++ later)
        (operatorToken behind (position + 1) :: tokens) := by
    intro behind scansLater
    exact .blank rfl (scansAs_operator behind (.blank rfl scansLater))
  cases operator with
  | add => exact ⟨position + 1, spaced scans⟩
  | sub => exact ⟨position + 1, spaced scans⟩
  | _ => exact ⟨position, scansAs_operator _ scans⟩

theorem apart_writtenOperator (operator : Operator) (later : List Char) :
    writtenOperator operator ++ later ≠ [] ∧ Apart (writtenOperator operator ++ later) := by
  cases operator with
  | add => exact ⟨List.cons_ne_nil _ _, apart_of_blank _ rfl⟩
  | sub => exact ⟨List.cons_ne_nil _ _, apart_of_blank _ rfl⟩
  | _ => exact ⟨List.cons_ne_nil _ _, apart_of_symbol (by decide) _⟩

theorem prints_pow {base exponent : Expr α} (printsBase : base.Prints)
    (printsExponent : exponent.Prints) : (binary .pow base exponent).Prints := by
  refine .of_readable .power rfl (by decide) ?_ ?_
  · intro chain before
    cases chain <;> rfl
  · intro position
    have tightBase : enclosesLeft .pow base.level = false → 5 ≤ base.level := by
      intro bare
      have loose : ¬base.level ≤ 4 := of_decide_eq_false bare
      omega
    have tightExponent : enclosesRight .pow exponent.level = false → 3 ≤ exponent.level := by
      intro bare
      have loose : ¬exponent.level < 4 := of_decide_eq_false bare
      omega
    rcases printsBase.enclosed position .operand tightBase with
      ⟨basePhrase, baseScans, baseEq, baseAccepted, baseExtent⟩
    rcases printsExponent.enclosed
        (position + (enclosedIf (enclosesLeft .pow base.level) base.written).length +
          (writtenOperator .pow).length) .unary tightExponent with
      ⟨exponentPhrase, exponentScans, exponentEq, exponentAccepted, exponentExtent⟩
    rcases scansAs_writtenOperator .pow exponentScans with ⟨signPosition, signScans⟩
    have apart := apart_writtenOperator .pow
      (enclosedIf (enclosesRight .pow exponent.level) exponent.written)
    refine ⟨.raised basePhrase (operatorToken .pow signPosition) rfl exponentPhrase,
      ?_, ?_, ?_, ?_⟩
    · exact baseScans.append signScans apart.1 apart.2
    · exact congrArg₂ (Expr.binary .pow) baseEq exponentEq
    · exact ⟨baseAccepted, exponentAccepted⟩
    · refine (Phrase.extent_raised basePhrase _ _ exponentPhrase).trans ?_
      rw [baseExtent, exponentExtent, writtenExtent]

/-- The right operand of an operator of a chain: a phrase behind the operator, with what goes on
with the chain behind that. -/
theorem Prints.rightOperand {right : Expr α} (prints : right.Prints) {chain : Chain}
    {operator : Operator} (included : chain.includes operator = true) (position : Nat) :
    ∃ (first : Phrase α (.expr chain.operand)) (later : Phrase α (.links chain)),
      ScansAs position (enclosedIf (enclosesRight operator right.level) right.written)
          (first.tokens ++ later.tokens) ∧
        (first.CallsAccepted ∧ later.CallsAccepted) ∧
        first.extent.joined later.extent =
          right.writtenExtent.enclosedIf (enclosesRight operator right.level) ∧
        ∀ before, later.meaning (.binary operator before first.meaning) =
          Regrouped.joined operator before right.regroup := by
  rcases Chain.eq_joint_or_inverse included with rfl | rfl
  · rcases prints.enclosedChain position chain with
      ⟨first, later, scans, accepted, extentEq, -, behind⟩
    have sameEnclosure :
        enclosesRight chain.joint right.level = decide (right.level < chain.joint.level) := by
      cases chain <;> rfl
    rw [sameEnclosure]
    refine ⟨first, later, scans, accepted, extentEq, ?_⟩
    intro before
    rw [behind]
    cases chain <;> rfl
  · have tight : enclosesRight chain.inverse right.level = false →
        chain.operand.level ≤ right.level := by
      intro bare
      cases chain with
      | additive => exact Nat.lt_of_not_le (of_decide_eq_false bare)
      | multiplicative => exact Nat.lt_of_not_le (of_decide_eq_false bare)
    have joined : ∀ before, Regrouped.joined chain.inverse before right.regroup =
        .binary chain.inverse before right.regroup.alone := by
      cases chain <;> exact fun before => rfl
    rcases prints.enclosed position chain.operand tight with
      ⟨operand, scans, treeEq, accepted, extentEq⟩
    refine ⟨operand, .noLink, ?_, ⟨accepted, trivial⟩, ?_, ?_⟩
    · rw [Phrase.tokens, List.append_nil]
      exact scans
    · exact (Extent.joined_none operand.extent).trans extentEq
    · intro before
      rw [joined, ← treeEq]
      rfl

omit [Neg α] in
theorem writtenExtent_chain {chain : Chain} {operator : Operator}
    (included : chain.includes operator = true) (left right : Expr α) :
    (binary operator left right).writtenExtent =
      (left.writtenExtent.enclosedIf (enclosesLeft operator left.level)).joined
        (Extent.operator.joined
          (right.writtenExtent.enclosedIf (enclosesRight operator right.level))) := by
  rcases Chain.eq_joint_or_inverse included with rfl | rfl <;> cases chain <;> rfl

theorem prints_chain (chain : Chain) {operator : Operator}
    (included : chain.includes operator = true) {left right : Expr α} (printsLeft : left.Prints)
    (printsRight : right.Prints) :
    (binary operator left right).Prints := by
  refine .of_chain chain included ?_
  intro position
  have sameEnclosure :
      enclosesLeft operator left.level = decide (left.level < chain.joint.level) := by
    rcases Chain.eq_joint_or_inverse included with rfl | rfl <;> cases chain <;> rfl
  rcases printsLeft.enclosedChain position chain with
    ⟨first, links, leftScans, leftAccepted, leftExtent, leftAlone, leftBehind⟩
  rw [← sameEnclosure] at leftScans leftExtent
  rcases printsRight.rightOperand included
      (position + (enclosedIf (enclosesLeft operator left.level) left.written).length +
        (writtenOperator operator).length) with
    ⟨operand, later, rightScans, rightAccepted, rightExtent, rightJoined⟩
  rcases scansAs_writtenOperator operator rightScans with ⟨signPosition, signScans⟩
  have apart := apart_writtenOperator operator
    (enclosedIf (enclosesRight operator right.level) right.written)
  have joins : chain.operator? (operatorToken operator signPosition : Token α) = some operator := by
    rcases Chain.eq_joint_or_inverse included with rfl | rfl <;> cases chain <;> rfl
  refine ⟨first,
    links.append (.link (operatorToken operator signPosition) operator joins operand later),
    ?_, ?_, ?_, ?_, ?_⟩
  · have scans := leftScans.append signScans apart.1 apart.2
    rw [List.append_assoc] at scans
    rw [Phrase.tokens_append]
    exact scans
  · exact ⟨leftAccepted.1, Phrase.callsAccepted_append leftAccepted.2 rightAccepted⟩
  · rw [writtenExtent_chain included, Phrase.extent_append, Phrase.extent_link,
      ← Extent.joined_assoc, leftExtent, rightExtent]
  · rw [Phrase.meaning_append, leftAlone]
    exact rightJoined _
  · -- What stands before goes on with the left operand, and both together with the operator.
    intro before
    rw [Phrase.meaning_append, leftBehind]
    refine (rightJoined _).trans ?_
    simp only [regroup, Regrouped.operation, if_pos included]

theorem readable_arguments (others : List (Expr α)) {first : Expr α} (printsFirst : first.Prints)
    (printsOthers : ∀ argument ∈ others, argument.Prints) (position : Nat) :
    ∃ (phrase : Phrase α (.expr .sum)) (later : Phrase α .arguments),
      ScansAs position (writtenAll (first :: others)) (phrase.tokens ++ later.tokens) ∧
        (phrase.CallsAccepted ∧ later.CallsAccepted) ∧
        phrase.extent.joined later.extent = writtenExtentAll (first :: others) ∧
        phrase.meaning = first.regroup.alone ∧ later.meaning = regroupAll others := by
  induction others generalizing first position with
  | nil =>
    rcases printsFirst.readable position .sum first.one_le_level with
      ⟨phrase, scans, treeEq, accepted, extentEq⟩
    refine ⟨phrase, .noArgument, ?_, ⟨accepted, trivial⟩, ?_, treeEq, rfl⟩
    · rw [Phrase.tokens, List.append_nil]
      exact scans
    · rw [extentEq, writtenExtentAll]
      rfl
  | cons next others ih =>
    rcases List.forall_mem_cons.mp printsOthers with ⟨printsNext, printsLater⟩
    rcases printsFirst.readable position .sum first.one_le_level with
      ⟨phrase, scans, treeEq, accepted, extentEq⟩
    rcases ih printsNext printsLater (position + first.written.length + 1 + 1) with
      ⟨nextPhrase, later, nextScans, nextAccepted, nextExtent, nextEq, laterEq⟩
    refine ⟨phrase, .argument ⟨.comma, String.ofList [','], position + first.written.length⟩ rfl
      nextPhrase later, ?_, ⟨accepted, nextAccepted⟩, ?_, treeEq, ?_⟩
    · have commaScans : ScansAs (position + first.written.length)
          (',' :: ' ' :: writtenAll (next :: others))
          ((⟨.comma, String.ofList [','], position + first.written.length⟩ : Token α) ::
            (nextPhrase.tokens ++ later.tokens)) :=
        .symbol rfl (.blank rfl nextScans)
      exact scans.append commaScans (List.cons_ne_nil _ _) (apart_of_symbol (by decide) _)
    · refine (congrArg phrase.extent.joined (Phrase.extent_argument _ _ nextPhrase later)).trans ?_
      rw [nextExtent, extentEq]
      rfl
    · exact congrArg₂ List.cons nextEq laterEq

theorem name_mem_nameForms (function : Elementary) : function.name.toList ∈ nameForms := by
  cases function <;> exact mem_nameForms.mpr ⟨_, _, rfl, by decide, List.all_eq_true.mp (by decide)⟩

theorem prints_call {function : Elementary} {arguments : List (Expr α)}
    (accepts : function.acceptsCount arguments.length = true)
    (prints : ∀ argument ∈ arguments, argument.Prints) : (call function arguments).Prints := by
  refine .of_readable .operand rfl (by decide) (fun chain before => rfl) ?_
  intro position
  cases arguments with
  | nil => cases function <;> cases accepts
  | cons first others =>
    rcases List.forall_mem_cons.mp prints with ⟨printsFirst, printsOthers⟩
    rcases readable_arguments others printsFirst printsOthers
        (position + function.name.toList.length + 1) with
      ⟨phrase, later, argumentScans, argumentsAccepted, argumentsExtent, firstEq, othersEq⟩
    have isFunction : Elementary.ofName? (String.ofList function.name.toList) = some function := by
      rw [String.ofList_toList]
      exact Elementary.ofName?_name function
    refine ⟨.call ⟨.name, String.ofList function.name.toList, position⟩ rfl function isFunction
      (openingToken (position + function.name.toList.length)) rfl phrase later
      (closingToken (position + function.name.toList.length + 1 +
        (writtenAll (first :: others)).length)) rfl, ?_, ?_, ?_, ?_⟩
    · have nameScans : ScansAs position function.name.toList _ :=
        .name (α := α) (name_mem_nameForms function)
      have scans := nameScans.append (scansAs_enclosed argumentScans) (List.cons_ne_nil _ _)
        (apart_of_symbol (by decide) _)
      rw [List.append_assoc] at scans
      exact scans
    · exact congrArg (Expr.call function) (congrArg₂ List.cons firstEq othersEq)
    · refine ⟨argumentsAccepted.1, argumentsAccepted.2, ?_⟩
      rw [othersEq, length_regroupAll]
      exact accepts
    · refine (Phrase.extent_call _ _ _ _ _ phrase later _ _).trans ?_
      rw [argumentsExtent, writtenExtent]

/-! ### Whole trees -/

mutual

theorem prints (tree : Expr α) (legible : tree.Throughout LegiblePart) : tree.Prints := by
  match tree with
  | number literal => exact prints_number legible
  | var => exact prints_var
  | neg operand => exact prints_neg (prints operand legible.2)
  | binary operator left right =>
    have printsLeft := prints left legible.2.1
    have printsRight := prints right legible.2.2
    cases operator with
    | add => exact prints_chain .additive rfl printsLeft printsRight
    | sub => exact prints_chain .additive rfl printsLeft printsRight
    | mul => exact prints_chain .multiplicative rfl printsLeft printsRight
    | div => exact prints_chain .multiplicative rfl printsLeft printsRight
    | pow => exact prints_pow printsLeft printsRight
  | call function arguments => exact prints_call legible.1 (printsAll arguments legible.2)

theorem printsAll (arguments : List (Expr α)) (legible : ThroughoutAll LegiblePart arguments) :
    ∀ argument ∈ arguments, argument.Prints := by
  match arguments with
  | [] => exact nofun
  | argument :: others =>
    exact List.forall_mem_cons.mpr ⟨prints argument legible.1, printsAll others legible.2⟩

end

/-- The text of a tree has the tokens of a formula whose tree is the regrouped one and whose extent
is that of the text. -/
theorem scan_text (tree : Expr α) (legible : tree.Throughout LegiblePart) :
    ∃ phrase : Phrase α (.expr .sum), phrase.meaning = tree.regrouped ∧ phrase.CallsAccepted ∧
      phrase.extent = tree.writtenExtent ∧
      Token.scan tree.text = .ok (phrase.tokens ++ [⟨.finish, "", tree.text.length⟩]) := by
  rcases (prints tree legible).readable 0 .sum tree.one_le_level with
    ⟨phrase, scans, treeEq, accepted, extentEq⟩
  refine ⟨phrase, treeEq, accepted, extentEq, ?_⟩
  rw [← toList_text] at scans
  exact scans.scan_eq

end Expr

end Tangency
