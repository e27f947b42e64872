/-
Whether the text of a formula that was read is read again.

Writing puts parentheses, which reading counts.  All but two kinds of them stand where the formula
had a group: around a minus that is the operand of a minus or an exponent the grammar asks for
none.  So a formula without such a minus has a text that asks no more than the formula did, and in
general the extent of the text decides.

Literals that are too large are left out: they are infinite, and their text is no number.
-/

import Tangency.Proofs.AnyTokens

namespace Tangency

namespace Expr

variable {α : Type} [Numeral α]

/-- The extent of the text of a tree that is enclosed if it binds less tightly than a level. -/
def extentAt (limit : Nat) (tree : Expr α) : Extent :=
  tree.writtenExtent.enclosedIf (tree.level < limit)

theorem extentAt_of_le {limit : Nat} {tree : Expr α} (tight : limit ≤ tree.level) :
    tree.extentAt limit = tree.writtenExtent := by
  rw [extentAt, decide_eq_false (Nat.not_lt.mpr tight)]
  rfl

theorem extentAt_one (tree : Expr α) : tree.extentAt 1 = tree.writtenExtent :=
  extentAt_of_le tree.one_le_level

theorem extentAt_le_deeper (limit : Nat) (tree : Expr α) :
    (tree.extentAt limit).Le tree.writtenExtent.deeper := by
  rw [extentAt]
  cases decide (tree.level < limit) with
  | true => exact .refl _
  | false => exact tree.writtenExtent.le_deeper

theorem extentAt_mono (tree : Expr α) {loose tight : Nat} (le : loose ≤ tight) :
    (tree.extentAt loose).Le (tree.extentAt tight) := by
  by_cases enclosed : tree.level < tight
  · have tightEq : tree.extentAt tight = tree.writtenExtent.deeper := by
      rw [extentAt, decide_eq_true enclosed]
      rfl
    rw [tightEq]
    exact tree.extentAt_le_deeper loose
  · have bare : tight ≤ tree.level := Nat.le_of_not_lt enclosed
    rw [extentAt_of_le bare, extentAt_of_le (Nat.le_trans le bare)]
    exact .refl _

theorem extentAt_succ {limit : Nat} {tree : Expr α} (other : tree.level ≠ limit) :
    tree.extentAt (limit + 1) = tree.extentAt limit := by
  have same : tree.level < limit + 1 ↔ tree.level < limit := by omega
  rw [extentAt, extentAt, decide_eq_decide.mpr same]

def Unsigned (part : Expr α) : Prop :=
  ∀ literal, part = number literal → Numeral.isNegative literal = false

/-- The operand of the part, if it is a negation, or else the exponent, if it is a power, is no
negation. -/
def EnclosesNoMinus (part : Expr α) : Prop :=
  (∀ inner, part ≠ neg (neg inner)) ∧ ∀ base inner, part ≠ binary .pow base (neg inner)

def Bare (part : Expr α) : Prop := part.Unsigned ∧ part.EnclosesNoMinus

theorem Unsigned.level_ne {tree : Expr α} (unsigned : tree.Unsigned)
    (noMinus : ∀ inner, tree ≠ neg inner) : tree.level ≠ negationLevel := by
  cases tree with
  | number literal =>
    rw [level, if_neg (Bool.eq_false_iff.mp (unsigned literal rfl))]
    decide
  | neg operand => exact absurd rfl (noMinus operand)
  | binary operator left right => cases operator <;> exact Nat.ne_of_beq_eq_false rfl
  | _ => exact Nat.ne_of_beq_eq_false rfl

theorem extentAt_number {literal : α} (unsigned : (number literal).Unsigned) :
    (number literal).extentAt 5 = .single := by
  have notNegative := Bool.eq_false_iff.mp (unsigned literal rfl)
  have levelEq : (number literal).level = 5 := if_neg notNegative
  rw [extentAt_of_le (Nat.le_of_eq levelEq.symm), writtenExtent, if_neg notNegative]

theorem extentAt_neg {operand : Expr α} (bare : (neg operand).Bare) (operandBare : operand.Bare) :
    (neg operand).extentAt 3 = (operand.extentAt 3).deeper := by
  have enclosure : decide (operand.level ≤ negationLevel) = decide (operand.level < 3 + 1) :=
    decide_eq_decide.mpr Nat.lt_succ_iff.symm
  have other : operand.level ≠ 3 :=
    operandBare.1.level_ne fun inner same => bare.2.1 inner (congrArg neg same)
  rw [extentAt_of_le (Nat.le_refl 3), writtenExtent, enclosure]
  exact congrArg Extent.deeper (extentAt_succ other)

theorem extentAt_pow {base exponent : Expr α} (bare : (binary .pow base exponent).Bare)
    (exponentBare : exponent.Bare) :
    (binary .pow base exponent).extentAt 4 =
      (base.extentAt 5).joined (exponent.extentAt 3).deeper := by
  have enclosure : enclosesLeft .pow base.level = decide (base.level < 4 + 1) :=
    decide_eq_decide.mpr Nat.lt_succ_iff.symm
  have other : exponent.level ≠ 3 :=
    exponentBare.1.level_ne fun inner same => bare.2.2 base inner (congrArg (binary .pow base) same)
  rw [extentAt_of_le (Nat.le_refl 4), writtenExtent, enclosure]
  exact congrArg (fun extent => (base.extentAt 5).joined extent.deeper) (extentAt_succ other)

end Expr

section Covered

variable {α : Type} [Numeral α]

omit [Numeral α] in
theorem Chain.includes_of_joins {chain : Chain} {sign : Token α} {operator : Operator}
    (joins : chain.operator? sign = some operator) : chain.includes operator = true := by
  cases chain with
  | additive =>
    change Reader.additive? sign = some operator at joins
    unfold Reader.additive? at joins
    split at joins <;> cases joins <;> rfl
  | multiplicative =>
    change Reader.multiplicative? sign = some operator at joins
    unfold Reader.multiplicative? at joins
    split at joins <;> cases joins <;> rfl

/-- Behind an operator of a chain stands an operand of the chain, so that writing encloses no more
there than the formula does. -/
theorem extentAt_chain {chain : Chain} {operator : Operator}
    (included : chain.includes operator = true) (left right : Expr α) :
    ((Expr.binary operator left right).extentAt chain.joint.level).Le
      ((left.extentAt chain.joint.level).joined
        (Extent.operator.joined (right.extentAt chain.operand.level))) := by
  have levelEq : (Expr.binary operator left right).level = chain.joint.level :=
    Chain.level_eq included
  rw [Expr.extentAt_of_le (Nat.le_of_eq levelEq.symm), Expr.writtenExtent_chain included]
  have leftEq : left.writtenExtent.enclosedIf (Expr.enclosesLeft operator left.level) =
      left.extentAt chain.joint.level := by
    rcases Chain.eq_joint_or_inverse included with rfl | rfl <;> cases chain <;> rfl
  have rightLe :
      (right.writtenExtent.enclosedIf (Expr.enclosesRight operator right.level)).Le
        (right.extentAt chain.operand.level) := by
    rcases Chain.eq_joint_or_inverse included with rfl | rfl
    · cases chain with
      | additive => exact right.extentAt_mono (by decide : 1 ≤ 2)
      | multiplicative => exact right.extentAt_mono (by decide : 2 ≤ 3)
    · cases chain with
      | additive =>
        have enclosure : Expr.enclosesRight .sub right.level = decide (right.level < 2) :=
          decide_eq_decide.mpr Nat.lt_succ_iff.symm
        change (right.writtenExtent.enclosedIf (Expr.enclosesRight .sub right.level)).Le _
        rw [enclosure]
        exact .refl _
      | multiplicative =>
        have enclosure : Expr.enclosesRight .div right.level = decide (right.level < 3) :=
          decide_eq_decide.mpr Nat.lt_succ_iff.symm
        change (right.writtenExtent.enclosedIf (Expr.enclosesRight .div right.level)).Le _
        rw [enclosure]
        exact .refl _
  rw [leftEq]
  exact (Extent.Le.refl _).joined ((Extent.Le.refl _).joined rightLe)

namespace Phrase

theorem throughout_left {property : Expr α → Prop} {chain : Chain} (links : Phrase α (.links chain))
    (left : Expr α) (everywhere : (links.meaning left).Throughout property) :
    left.Throughout property := by
  match links with
  | .noLink => exact everywhere
  | .link sign operator joins right later =>
    exact (throughout_left later (.binary operator left right.meaning) everywhere).2.1

/-- Where its tree stands, the text asks no more than the phrase. What continues a chain adds no
more to the text than to the formula. -/
def CoversText : {grade : Grade} → Phrase α grade → Prop
  | .expr rank, phrase =>
    phrase.meaning.Throughout Expr.Bare → (phrase.meaning.extentAt rank.level).Le phrase.extent
  | .links chain, phrase =>
    ∀ left bound, (phrase.meaning left).Throughout Expr.Bare →
      (left.extentAt chain.joint.level).Le bound →
        ((phrase.meaning left).extentAt chain.joint.level).Le (bound.joined phrase.extent)
  | .arguments, phrase =>
    Expr.ThroughoutAll Expr.Bare phrase.meaning →
      (Expr.writtenExtentAll phrase.meaning).Le phrase.extent

theorem coversText {grade : Grade} (phrase : Phrase α grade) : phrase.CoversText := by
  induction phrase with
  | sum first later ihFirst ihLater =>
    intro bare
    have firstLe := ihFirst (later.throughout_left first.meaning bare)
    exact ihLater first.meaning first.extent bare
      ((first.meaning.extentAt_mono (by decide : 1 ≤ 2)).trans firstLe)
  | product first later ihFirst ihLater =>
    intro bare
    have firstLe := ihFirst (later.throughout_left first.meaning bare)
    exact ihLater first.meaning first.extent bare
      ((first.meaning.extentAt_mono (by decide : 2 ≤ 3)).trans firstLe)
  | noLink =>
    intro left bound bare leftLe
    exact (bound.joined_none).symm ▸ leftLe
  | @link chain sign operator joins right later ihRight ihLater =>
    intro left bound bare leftLe
    have pairBare := later.throughout_left (.binary operator left right.meaning) bare
    have rightLe : (right.meaning.extentAt chain.operand.level).Le right.extent :=
      ihRight pairBare.2.2
    have pairLe := (extentAt_chain (Chain.includes_of_joins joins) left right.meaning).trans
      (leftLe.joined ((Extent.Le.refl .operator).joined rightLe))
    have whole := ihLater _ _ bare pairLe
    rw [extent_link]
    simp only [Extent.joined_assoc] at whole
    exact whole
  | minus sign isMinus negated ih =>
    intro bare
    have negatedLe : (negated.meaning.extentAt 3).Le negated.extent := ih bare.2
    rw [extent_minus]
    exact (Expr.extentAt_neg bare.1 bare.2.holds).symm ▸ negatedLe.deeper
  | unsigned power ih =>
    intro bare
    exact (power.meaning.extentAt_mono (by decide : 3 ≤ 4)).trans (ih bare)
  | unraised operand ih =>
    intro bare
    exact (operand.meaning.extentAt_mono (by decide : 4 ≤ 5)).trans (ih bare)
  | raised base sign isCaret exponent ihBase ihExponent =>
    intro bare
    have baseLe : (base.meaning.extentAt 5).Le base.extent := ihBase bare.2.1
    have exponentLe : (exponent.meaning.extentAt 3).Le exponent.extent := ihExponent bare.2.2
    rw [extent_raised]
    exact (Expr.extentAt_pow bare.1 bare.2.2.holds).symm ▸ baseLe.joined exponentLe.deeper
  | number token literal isNumber =>
    intro bare
    exact (Expr.extentAt_number bare.1).symm ▸ .refl _
  | var => exact fun bare => .refl _
  | constant token isName literal isConstant =>
    intro bare
    exact (Expr.extentAt_number bare.1).symm ▸ .refl _
  | group opening opens inner closing closes ih =>
    intro bare
    have innerLe : (inner.meaning.extentAt 1).Le inner.extent := ih bare
    rw [Expr.extentAt_one] at innerLe
    rw [extent_group]
    exact (inner.meaning.extentAt_le_deeper 5).trans innerLe.deeper
  | call name isName function isFunction opening opens first later closing closes ihFirst ihLater =>
    intro bare
    have firstLe : (first.meaning.extentAt 1).Le first.extent := ihFirst bare.2.1
    rw [Expr.extentAt_one] at firstLe
    rw [extent_call]
    exact (firstLe.joined (ihLater bare.2.2)).deeper
  | noArgument => exact fun bare => .refl _
  | argument comma separates next later ihNext ihLater =>
    intro bare
    have nextLe : (next.meaning.extentAt 1).Le next.extent := ihNext bare.1
    rw [Expr.extentAt_one] at nextLe
    rw [extent_argument]
    exact nextLe.joined (ihLater bare.2)

end Phrase

end Covered

/-! ### Formulas that were read from a text -/

section Reading

variable {α : Type} [Numeral α]

theorem Scans.numbers {position : Nat} {text : List Char} {outcome : Except Nat (List (Token α))}
    (scans : Scans position text outcome) :
    ∀ tokens, outcome = .ok tokens → ∀ token ∈ tokens, ∀ literal, token.kind = .number literal →
      ∃ value, literal = Numeral.ofDecimal value := by
  rintro tokens rfl
  obtain ⟨body, stop, rfl, lexes⟩ := scans.lexes tokens rfl
  refine List.forall_mem_append.mpr ⟨?_, List.forall_mem_singleton.mpr nofun⟩
  intro token member literal isNumber
  have tokenLexes := lexes token member
  rw [isNumber] at tokenLexes
  generalize token.text.toList = word at tokenLexes
  cases tokenLexes with
  | number _ reads => exact ⟨_, rfl⟩

theorem Expr.exists_phrase_of_ofText? {source : String} {tree : Expr α}
    (read : ofText? source = .ok tree) :
    ∃ phrase : Phrase α (.expr .sum), phrase.meaning = tree ∧ phrase.CallsAccepted ∧
      phrase.extent.Le Reader.limits ∧
      ∀ token ∈ phrase.tokens, ∀ literal, token.kind = .number literal →
        ∃ value, literal = Numeral.ofDecimal value := by
  unfold ofText? at read
  cases scanned : Token.scan (α := α) source with
  | error failure =>
    rw [scanned] at read
    cases read
  | ok tokens =>
    rw [scanned] at read
    have tokensRead : ofTokens? tokens = .ok tree := read
    have scans := scan_eq_ok_iff.mp scanned
    obtain ⟨body, rfl, cuts⟩ := scans.cuts tokens rfl
    obtain ⟨phrase, rfl, treeEq, accepted, enough, shallow⟩ :=
      (ofTokens?_eq_ok_iff cuts.goOn rfl).mp tokensRead
    refine ⟨phrase, treeEq, accepted, ⟨enough, shallow⟩, ?_⟩
    intro token member
    exact scans.numbers _ rfl token (List.mem_append_left _ member)

theorem Expr.exists_ofText?_text_iff [Neg α] (tree : Expr α)
    (legible : tree.Throughout LegiblePart) :
    (∃ again : Expr α, ofText? tree.text = .ok again) ↔ tree.writtenExtent.Le Reader.limits := by
  obtain ⟨phrase, treeEq, accepted, extentEq, readEq⟩ := tree.ofText?_text_eq legible
  rw [readEq, ← extentEq]
  constructor
  · rintro ⟨again, read⟩
    obtain ⟨found, sameTokens, -, -, enough, shallow⟩ :=
      (ofTokens?_eq_ok_iff phrase.goesOn rfl).mp read
    exact Phrase.eq_of_tokens_eq sameTokens ▸ ⟨enough, shallow⟩
  · intro fits
    exact ⟨phrase.meaning, (ofTokens?_eq_ok_iff phrase.goesOn rfl).mpr
      ⟨phrase, rfl, rfl, accepted, fits.nodes, fits.depth⟩⟩

end Reading

namespace Binary64

theorem isNegative_ofDecimal (value : Decimal) :
    Numeral.isNegative (Numeral.ofDecimal value : Binary64) = false := by
  have positive : infinityBits < twoTo 63 := by decide
  refine isNegative_ofMagnitudeBits false (Nat.lt_of_le_of_lt ?_ positive)
  rw [Decimal.nearestMagnitudeBits]
  split
  · exact Nat.zero_le _
  · split
    · exact Nat.le_refl _
    · unfold nearestMagnitudeBits
      split
      · exact Nat.zero_le _
      · exact Nat.min_le_right _ _

theorem isNegative_constant {word : String} {literal : Binary64}
    (isConstant : Numeral.constant? word = some literal) : Numeral.isNegative literal = false := by
  unfold Numeral.constant? at isConstant
  split at isConstant
  · cases isConstant
    decide
  · split at isConstant
    · cases isConstant
      decide
    · cases isConstant

end Binary64

theorem Phrase.unsigned_meaning {rank : Rank} (phrase : Phrase Binary64 (.expr rank))
    (accepted : phrase.CallsAccepted)
    (decimals : ∀ token ∈ phrase.tokens, ∀ literal, token.kind = .number literal →
      ∃ value, literal = Numeral.ofDecimal value) :
    phrase.meaning.Throughout Expr.Unsigned := by
  refine phrase.meansThroughout ⟨?_, nofun, fun _ => nofun, fun _ _ _ => nofun, fun _ => nofun⟩
    accepted ?_
  · rintro word literal isConstant _ same
    cases same
    exact Binary64.isNegative_constant isConstant
  · rintro token member literal isNumber _ same
    cases same
    obtain ⟨value, rfl⟩ := decimals token member literal isNumber
    exact Binary64.isNegative_ofDecimal value

/-- A formula that was read, with finite literals, has a text that is read again or refused for a
limit. The text is read again exactly if its extent is within the limits, with a node and a level
for each pair of parentheses that writing puts. So it always is where no negation is the operand of
a negation or an exponent. -/
theorem text_is_read_again (source : String) (tree : Expr Binary64)
    (read : Expr.ofText? source = .ok tree) (finite : tree.LiteralsFinite) :
    ((∃ again : Expr Binary64, Expr.ofText? tree.text = .ok again) ∨
      ∃ position fault,
        Expr.ofText? (α := Binary64) tree.text = .error (.malformed position fault) ∧
        (fault = .nestedTooDeeply ∨ fault = .tooLong Reader.nodeLimit)) ∧
    ((∃ again : Expr Binary64, Expr.ofText? tree.text = .ok again) ↔
      tree.writtenExtent.Le Reader.limits) ∧
    (tree.Throughout Expr.EnclosesNoMinus →
      ∃ again : Expr Binary64, Expr.ofText? tree.text = .ok again) := by
  obtain ⟨phrase, rfl, accepted, fits, decimals⟩ := Expr.exists_phrase_of_ofText? read
  have legible :=
    Expr.legible_of_literalsFinite finite (phrase.callsAccepted_meaning accepted)
  have readAgain := phrase.meaning.exists_ofText?_text_iff legible
  refine ⟨?_, readAgain, ?_⟩
  · rcases phrase.meaning.ofText?_text legible with ⟨failure, failed, exceeded⟩ | again
    · cases failure with
      | malformed position fault => exact .inr ⟨position, fault, failed, exceeded⟩
      | _ => exact absurd exceeded id
    · exact .inl ⟨_, again⟩
  · intro bare
    have everywhere : phrase.meaning.Throughout Expr.Bare :=
      (phrase.unsigned_meaning accepted decimals).and (fun _ => And.intro) bare
    have covered : (phrase.meaning.extentAt 1).Le phrase.extent := phrase.coversText everywhere
    rw [Expr.extentAt_one] at covered
    exact readAgain.mpr (covered.trans fits)

def minusesText (count : Nat) : String :=
  String.ofList (List.replicate count '-' ++ Expr.variableName.toList)

section Minuses

variable {α : Type} [Numeral α]

def minusesTree : Nat → Expr α
  | 0 => .var
  | count + 1 => .neg (minusesTree count)

def minusesPhrase : Nat → Nat → Phrase α (.expr .unary)
  | 0, position => .unsigned (.unraised
      (.var ⟨.name, String.ofList Expr.variableName.toList, position⟩ rfl rfl))
  | count + 1, position =>
    .minus (Expr.operatorToken .sub position) rfl (minusesPhrase count (position + 1))

theorem minusesPhrase_accepted (count position : Nat) :
    (minusesPhrase (α := α) count position).CallsAccepted := by
  induction count generalizing position with
  | zero => exact trivial
  | succ count ih => exact ih (position + 1)

theorem minusesPhrase_meaning (count position : Nat) :
    (minusesPhrase (α := α) count position).meaning = minusesTree count := by
  induction count generalizing position with
  | zero => rfl
  | succ count ih => exact congrArg Expr.neg (ih (position + 1))

theorem minusesPhrase_extent (count position : Nat) :
    (minusesPhrase (α := α) count position).extent = ⟨count + 1, count + 1⟩ := by
  induction count generalizing position with
  | zero => rfl
  | succ count ih =>
    exact (Phrase.extent_minus _ _ _).trans (congrArg Extent.deeper (ih (position + 1)))

theorem minusesPhrase_scans (count position : Nat) :
    ScansAs position (List.replicate count '-' ++ Expr.variableName.toList)
      (minusesPhrase (α := α) count position).tokens := by
  induction count generalizing position with
  | zero =>
    have isName : Expr.variableName.toList ∈ nameForms :=
      mem_nameForms.mpr ⟨'x', [], rfl, by decide, nofun⟩
    exact .name isName
  | succ count ih => exact Expr.scansAs_operator .sub (ih (position + 1))

theorem ofText?_minusesText {count : Nat} (few : count < Reader.depthLimit) :
    Expr.ofText? (minusesText count) = .ok (minusesTree (α := α) count) := by
  let phrase : Phrase α (.expr .sum) := .sum (.product (minusesPhrase count 0) .noLink) .noLink
  have tokensEq : phrase.tokens = (minusesPhrase (α := α) count 0).tokens := by
    simp only [phrase, Phrase.tokens, List.append_nil]
  have extentEq : phrase.extent = ⟨count + 1, count + 1⟩ :=
    (Extent.joined_none _).trans ((Extent.joined_none _).trans (minusesPhrase_extent count 0))
  have scans := minusesPhrase_scans (α := α) count 0
  rw [← tokensEq, ← String.toList_ofList (l := _ ++ _)] at scans
  have limits : Reader.depthLimit ≤ Reader.nodeLimit := by decide
  have enough : phrase.nodes = count + 1 := congrArg Extent.nodes extentEq
  have shallow : phrase.depth = count + 1 := congrArg Extent.depth extentEq
  rw [Expr.ofText?, minusesText, scans.scan_eq]
  exact (Expr.ofTokens?_eq_ok_iff phrase.goesOn rfl).mpr
    ⟨phrase, rfl, minusesPhrase_meaning count 0,
      ⟨⟨minusesPhrase_accepted count 0, trivial⟩, trivial⟩, by omega, by omega⟩

theorem writtenExtent_minusesTree (count : Nat) :
    (minusesTree (α := α) (count + 1)).writtenExtent = ⟨2 * (count + 1), 2 * (count + 1)⟩ := by
  induction count with
  | zero => rfl
  | succ count ih =>
    rw [minusesTree, Expr.writtenExtent, ih]
    rfl

theorem exists_ofText?_minusesTree_iff [Neg α] (count : Nat) :
    (∃ again : Expr α, Expr.ofText? (minusesTree (α := α) (count + 1)).text = .ok again) ↔
      2 * (count + 1) ≤ Reader.depthLimit := by
  have legible (signs : Nat) : (minusesTree (α := α) signs).Throughout Expr.LegiblePart := by
    induction signs with
    | zero => exact trivial
    | succ signs ih => exact ⟨trivial, ih⟩
  have limits : Reader.depthLimit ≤ Reader.nodeLimit := by decide
  rw [Expr.exists_ofText?_text_iff _ (legible (count + 1)), writtenExtent_minusesTree]
  constructor
  · exact fun fits => fits.depth
  · exact fun shallow => ⟨Nat.le_trans shallow limits, shallow⟩

end Minuses

/-- The text of `--x` is `-(-x)`. -/
theorem text_is_read_again_doubleMinus :
    Expr.ofText? (minusesText 2) = .ok (minusesTree (α := Binary64) 2) ∧
      (minusesTree (α := Binary64) 2).LiteralsFinite ∧
        ∃ again : Expr Binary64, Expr.ofText? (minusesTree (α := Binary64) 2).text = .ok again := by
  have read : Expr.ofText? (minusesText 2) = .ok (minusesTree (α := Binary64) 2) :=
    ofText?_minusesText (by decide)
  have finite : (minusesTree (α := Binary64) 2).LiteralsFinite := ⟨nofun, nofun, nofun⟩
  refine ⟨read, finite, (text_is_read_again _ _ read finite).2.1.mpr ?_⟩
  rw [writtenExtent_minusesTree]
  exact ⟨by decide, by decide⟩

/-- The parentheses around all minus signs but the first nest 130 of them too deeply, and the text
of a number past every double is `inf`, which is no number. -/
theorem text_is_not_read_again :
    (∃ tree : Expr Binary64, Expr.ofText? (minusesText 130) = .ok tree ∧
      ¬∃ again : Expr Binary64, Expr.ofText? tree.text = .ok again) ∧
    (∃ tree : Expr Binary64, Expr.ofText? "1e999" = .ok tree ∧
      ¬∃ again : Expr Binary64, Expr.ofText? tree.text = .ok again) := by
  refine ⟨⟨minusesTree 130, ofText?_minusesText (by decide), ?_⟩, ?_⟩
  · rw [exists_ofText?_minusesTree_iff 129]
    decide
  · have outcome : (match Expr.ofText? (α := Binary64) "1e999" with
        | .ok tree =>
          match Expr.ofText? (α := Binary64) tree.text with
          | .ok _ => false
          | .error _ => true
        | .error _ => false) = true := by
      decide +kernel
    cases read : Expr.ofText? (α := Binary64) "1e999" with
    | error failure =>
      rw [read] at outcome
      cases outcome
    | ok tree =>
      rw [read] at outcome
      refine ⟨tree, rfl, ?_⟩
      rintro ⟨again, readAgain⟩
      dsimp only at outcome
      rw [readAgain] at outcome
      cases outcome

end Tangency
