/-
Unambiguity of the grammar of formulas.

One token behind a phrase decides whether the phrase goes on.  Two phrases of a
grade that begin the same token list, and that are each followed by a token which
cannot continue them, are therefore the same phrase.  The readers look at no more
than this one token, so the condition is stated for tokens and used by both.
-/

import Tangency.Proofs.Grammar

namespace Tangency

variable {α : Type}

theorem Token.symbol?_eq_some_iff (token : Token α) (symbol : Char) :
    token.symbol? = some symbol ↔ token.kind = .operator symbol := by
  unfold Token.symbol?
  split
  · rename_i found kindEq
    rw [kindEq]
    simp only [Option.some.injEq, TokenKind.operator.injEq]
  · rename_i noOperator
    constructor
    · intro impossible
      cases impossible
    · intro kindEq
      exact absurd kindEq (noOperator symbol)

/-- A token that cannot continue an expression of the rank. -/
def Rank.Ends : Rank → Token α → Prop
  | .operand, token => token.kind ≠ .opening
  | .power, token => token.kind ≠ .opening ∧ token.symbol? ≠ some '^'
  | .unary, token => token.kind ≠ .opening ∧ token.symbol? ≠ some '^'
  | .product, token =>
    (token.kind ≠ .opening ∧ token.symbol? ≠ some '^') ∧ Reader.multiplicative? token = none
  | .sum, token =>
    ((token.kind ≠ .opening ∧ token.symbol? ≠ some '^') ∧ Reader.multiplicative? token = none) ∧
      Reader.additive? token = none

def Grade.Ends : Grade → Token α → Prop
  | .expr rank, token => rank.Ends token
  | .links chain, token => chain.operand.Ends token ∧ chain.operator? token = none
  | .arguments, token => Rank.sum.Ends token ∧ token.kind ≠ .comma

/-- The first of the tokens behind a phrase, if there is one, cannot continue it. -/
def Grade.EndsBefore (grade : Grade) (rest : List (Token α)) : Prop :=
  ∀ token later, rest = token :: later → grade.Ends token

theorem Grade.endsBefore_cons (grade : Grade) {token : Token α} {later : List (Token α)}
    (ends : grade.Ends token) : grade.EndsBefore (token :: later) := by
  intro other others same
  cases same
  exact ends

theorem Grade.EndsBefore.weaken {loose tight : Grade} {rest : List (Token α)}
    (ends : loose.EndsBefore rest)
    (weaker : ∀ token : Token α, loose.Ends token → tight.Ends token) : tight.EndsBefore rest :=
  fun token later same => weaker token (ends token later same)

theorem Rank.ends_of_symbol {token : Token α} {symbol : Char}
    (isSymbol : token.symbol? = some symbol) (notCaret : symbol ≠ '^') :
    (Rank.unary).Ends token := by
  constructor
  · intro opens
    rw [Token.symbol?_eq_some_iff, opens] at isSymbol
    cases isSymbol
  · intro isCaret
    rw [isSymbol] at isCaret
    exact notCaret (Option.some.inj isCaret)

theorem Chain.operand_ends {chain : Chain} {sign : Token α} {operator : Operator}
    (joins : chain.operator? sign = some operator) : chain.operand.Ends sign := by
  cases chain with
  | additive =>
    simp only [Chain.operator?, Reader.additive?] at joins
    split at joins
    · rename_i isPlus
      exact ⟨Rank.ends_of_symbol isPlus (by decide), by rw [Reader.multiplicative?, isPlus]; rfl⟩
    · rename_i isMinus
      exact ⟨Rank.ends_of_symbol isMinus (by decide),
        by rw [Reader.multiplicative?, isMinus]; rfl⟩
    · cases joins
  | multiplicative =>
    simp only [Chain.operator?, Reader.multiplicative?] at joins
    split at joins
    · rename_i isTimes
      exact Rank.ends_of_symbol isTimes (by decide)
    · rename_i isOver
      exact Rank.ends_of_symbol isOver (by decide)
    · cases joins

theorem Rank.ends_of_kind {token : Token α} (noOpening : token.kind ≠ .opening)
    (noSymbol : token.symbol? = none) (rank : Rank) : rank.Ends token := by
  cases rank <;>
    simp [Rank.Ends, Reader.additive?, Reader.multiplicative?, noOpening, noSymbol]

theorem Rank.ends_closing {token : Token α} (closes : token.kind = .closing) (rank : Rank) :
    rank.Ends token :=
  Rank.ends_of_kind (by simp [closes]) (by rw [Token.symbol?, closes]) rank

theorem Rank.ends_comma {token : Token α} (separates : token.kind = .comma) (rank : Rank) :
    rank.Ends token :=
  Rank.ends_of_kind (by simp [separates]) (by rw [Token.symbol?, separates]) rank

theorem Rank.ends_finish {token : Token α} (ends : token.isFinish = true) (rank : Rank) :
    rank.Ends token := by
  unfold Token.isFinish at ends
  split at ends
  · rename_i finishes
    exact Rank.ends_of_kind (by simp [finishes]) (by rw [Token.symbol?, finishes]) rank
  · cases ends

theorem Grade.ends_closing {token : Token α} (closes : token.kind = .closing) :
    Grade.arguments.Ends token :=
  ⟨Rank.ends_closing closes .sum, by simp [closes]⟩

theorem Rank.operand_ends_caret {sign : Token α} (isCaret : sign.symbol? = some '^') :
    Rank.operand.Ends sign := by
  intro opens
  rw [Token.symbol?_eq_some_iff, opens] at isCaret
  cases isCaret

namespace Phrase

variable [Numeral α]

theorem links_endsBefore (chain : Chain) (links : Phrase α (.links chain)) {rest : List (Token α)}
    (ends : (Grade.links chain).EndsBefore rest) :
    (Grade.expr chain.operand).EndsBefore (links.tokens ++ rest) := by
  cases links with
  | noLink => exact ends.weaken fun token tokenEnds => tokenEnds.1
  | link sign operator joins right later =>
    exact Grade.endsBefore_cons (.expr chain.operand) (Chain.operand_ends joins)

theorem arguments_endsBefore (later : Phrase α .arguments) {rest : List (Token α)}
    (ends : Grade.arguments.EndsBefore rest) :
    (Grade.expr .sum).EndsBefore (later.tokens ++ rest) := by
  cases later with
  | noArgument => exact ends.weaken fun token tokenEnds => tokenEnds.1
  | argument comma separates next others =>
    exact Grade.endsBefore_cons (.expr .sum) (Rank.ends_comma separates .sum)

/-- An operand begins with a number, a name or an opening parenthesis. -/
theorem tokens_operand (phrase : Phrase α (.expr .operand)) :
    ∃ token later, phrase.tokens = token :: later ∧ token.symbol? = none := by
  cases phrase with
  | number token literal isNumber => exact ⟨token, [], rfl, by rw [Token.symbol?, isNumber]⟩
  | var token isName isVariable => exact ⟨token, [], rfl, by rw [Token.symbol?, isName]⟩
  | constant token isName literal isConstant =>
    exact ⟨token, [], rfl, by rw [Token.symbol?, isName]⟩
  | group opening opens inner closing closes =>
    exact ⟨opening, _, rfl, by rw [Token.symbol?, opens]⟩
  | call name isName function isFunction opening opens first later closing closes =>
    exact ⟨name, _, rfl, by rw [Token.symbol?, isName]⟩

theorem tokens_power (phrase : Phrase α (.expr .power)) :
    ∃ token later, phrase.tokens = token :: later ∧ token.symbol? = none := by
  cases phrase with
  | unraised operand => exact operand.tokens_operand
  | raised base sign isCaret exponent =>
    obtain ⟨token, later, baseEq, noSymbol⟩ := base.tokens_operand
    exact ⟨token, later ++ sign :: exponent.tokens, by rw [tokens, baseEq]; rfl, noSymbol⟩

/-! ### Unambiguity -/

omit [Numeral α] in
theorem kinds_agree {token token' : Token α} {later later' : List (Token α)}
    (same : token :: later = token' :: later') {kind kind' : TokenKind α}
    (isKind : token.kind = kind) (isKind' : token'.kind = kind') : kind = kind' := by
  obtain ⟨rfl, _⟩ := List.cons.inj same
  exact isKind.symm.trans isKind'

/-- The phrase is the only one of its grade at the front of a token list, where it and any other are
ended by the token behind. The tokens behind are compared along with the phrases, since the end of
the first part of a phrase is found only by comparing. -/
def Unambiguous {grade : Grade} (first : Phrase α grade) : Prop :=
  ∀ (second : Phrase α grade) (rest rest' : List (Token α)),
    grade.EndsBefore rest → grade.EndsBefore rest' →
    first.tokens ++ rest = second.tokens ++ rest' → first = second ∧ rest = rest'

namespace Unambiguous

theorem chained (chain : Chain) {operand operand' : Phrase α (.expr chain.operand)}
    {links links' : Phrase α (.links chain)} {rest rest' : List (Token α)}
    (ihOperand : operand.Unambiguous) (ihLinks : links.Unambiguous)
    (ends : (Grade.links chain).EndsBefore rest) (ends' : (Grade.links chain).EndsBefore rest')
    (same : operand.tokens ++ (links.tokens ++ rest) =
      operand'.tokens ++ (links'.tokens ++ rest')) :
    operand = operand' ∧ links = links' ∧ rest = rest' := by
  obtain ⟨rfl, linksSame⟩ := ihOperand operand' _ _ (links_endsBefore chain links ends)
    (links_endsBefore chain links' ends') same
  obtain ⟨rfl, restSame⟩ := ihLinks links' rest rest' ends ends' linksSame
  exact ⟨rfl, rfl, restSame⟩

theorem sum {operand : Phrase α (.expr .product)} {links : Phrase α (.links .additive)}
    (ihOperand : operand.Unambiguous) (ihLinks : links.Unambiguous) :
    (Phrase.sum operand links).Unambiguous := by
  intro second rest rest' ends ends' same
  cases second with
  | sum operand' links' =>
    simp only [tokens, List.append_assoc] at same
    obtain ⟨rfl, rfl, restSame⟩ := chained .additive ihOperand ihLinks ends ends' same
    exact ⟨rfl, restSame⟩

theorem product {operand : Phrase α (.expr .unary)} {links : Phrase α (.links .multiplicative)}
    (ihOperand : operand.Unambiguous) (ihLinks : links.Unambiguous) :
    (Phrase.product operand links).Unambiguous := by
  intro second rest rest' ends ends' same
  cases second with
  | product operand' links' =>
    simp only [tokens, List.append_assoc] at same
    obtain ⟨rfl, rfl, restSame⟩ :=
      chained .multiplicative ihOperand ihLinks ends ends' same
    exact ⟨rfl, restSame⟩

theorem noLink {chain : Chain} : (Phrase.noLink : Phrase α (.links chain)).Unambiguous := by
  intro second rest rest' ends ends' same
  cases second with
  | noLink => exact ⟨rfl, same⟩
  | link sign operator joins right later =>
    have noJoin := (ends sign _ same).2
    rw [joins] at noJoin
    cases noJoin

theorem link {chain : Chain} {sign : Token α} {operator : Operator}
    (joins : chain.operator? sign = some operator) {right : Phrase α (.expr chain.operand)}
    {later : Phrase α (.links chain)} (ihRight : right.Unambiguous) (ihLater : later.Unambiguous) :
    (Phrase.link sign operator joins right later).Unambiguous := by
  intro second rest rest' ends ends' same
  cases second with
  | noLink =>
    have noJoin := (ends' sign _ same.symm).2
    rw [joins] at noJoin
    cases noJoin
  | link sign' operator' joins' right' later' =>
    simp only [tokens, List.cons_append, List.cons.injEq, List.append_assoc] at same
    obtain ⟨rfl, tailSame⟩ := same
    obtain rfl : operator = operator' := Option.some.inj (joins.symm.trans joins')
    obtain ⟨rfl, laterSame⟩ := ihRight right' _ _
      (links_endsBefore _ later ends) (links_endsBefore _ later' ends') tailSame
    obtain ⟨rfl, restSame⟩ := ihLater later' rest rest' ends ends' laterSame
    exact ⟨rfl, restSame⟩

theorem minus {sign : Token α} (isMinus : sign.symbol? = some '-')
    {negated : Phrase α (.expr .unary)} (ih : negated.Unambiguous) :
    (Phrase.minus sign isMinus negated).Unambiguous := by
  intro second rest rest' ends ends' same
  cases second with
  | minus sign' isMinus' negated' =>
    simp only [tokens, List.cons_append, List.cons.injEq] at same
    obtain ⟨rfl, tailSame⟩ := same
    obtain ⟨rfl, restSame⟩ := ih negated' rest rest' ends ends' tailSame
    exact ⟨rfl, restSame⟩
  | unsigned power =>
    obtain ⟨token, later, powerEq, noSymbol⟩ := power.tokens_power
    simp only [tokens, powerEq, List.cons_append, List.cons.injEq] at same
    rw [← same.1, isMinus] at noSymbol
    cases noSymbol

theorem unsigned {power : Phrase α (.expr .power)} (ih : power.Unambiguous) :
    (Phrase.unsigned power).Unambiguous := by
  intro second rest rest' ends ends' same
  cases second with
  | minus sign isMinus negated =>
    obtain ⟨token, later, powerEq, noSymbol⟩ := power.tokens_power
    simp only [tokens, powerEq, List.cons_append, List.cons.injEq] at same
    rw [same.1, isMinus] at noSymbol
    cases noSymbol
  | unsigned power' =>
    obtain ⟨rfl, restSame⟩ := ih power' rest rest' ends ends' same
    exact ⟨rfl, restSame⟩

theorem unraised {operand : Phrase α (.expr .operand)} (ih : operand.Unambiguous) :
    (Phrase.unraised operand).Unambiguous := by
  intro second rest rest' ends ends' same
  have operandEnds : (Grade.expr .operand).EndsBefore rest :=
    ends.weaken fun token tokenEnds => tokenEnds.1
  cases second with
  | unraised operand' =>
    have operandEnds' : (Grade.expr .operand).EndsBefore rest' :=
      ends'.weaken fun token tokenEnds => tokenEnds.1
    obtain ⟨rfl, restSame⟩ := ih operand' rest rest' operandEnds operandEnds' same
    exact ⟨rfl, restSame⟩
  | raised base sign isCaret exponent =>
    simp only [tokens, List.append_assoc, List.cons_append] at same
    obtain ⟨_, restSame⟩ := ih base rest _ operandEnds
      (Grade.endsBefore_cons _ (Rank.operand_ends_caret isCaret)) same
    exact absurd isCaret (ends sign _ restSame).2

theorem raised {base : Phrase α (.expr .operand)} {sign : Token α}
    (isCaret : sign.symbol? = some '^') {exponent : Phrase α (.expr .unary)}
    (ihBase : base.Unambiguous) (ihExponent : exponent.Unambiguous) :
    (Phrase.raised base sign isCaret exponent).Unambiguous := by
  intro second rest rest' ends ends' same
  cases second with
  | unraised operand =>
    have operandEnds' : (Grade.expr .operand).EndsBefore rest' :=
      ends'.weaken fun token tokenEnds => tokenEnds.1
    simp only [tokens, List.append_assoc, List.cons_append] at same
    obtain ⟨_, restSame⟩ := ihBase operand _ rest'
      (Grade.endsBefore_cons _ (Rank.operand_ends_caret isCaret)) operandEnds' same
    exact absurd isCaret (ends' sign _ restSame.symm).2
  | raised base' sign' isCaret' exponent' =>
    simp only [tokens, List.append_assoc, List.cons_append] at same
    obtain ⟨rfl, tailSame⟩ := ihBase base' _ _
      (Grade.endsBefore_cons _ (Rank.operand_ends_caret isCaret))
      (Grade.endsBefore_cons _ (Rank.operand_ends_caret isCaret')) same
    obtain ⟨rfl, exponentSame⟩ := List.cons.inj tailSame
    obtain ⟨rfl, restSame⟩ := ihExponent exponent' rest rest' ends ends' exponentSame
    exact ⟨rfl, restSame⟩

theorem number (token : Token α) (literal : α) (isNumber : token.kind = .number literal) :
    (Phrase.number token literal isNumber).Unambiguous := by
  intro second rest rest' ends ends' same
  cases second with
  | number token' literal' isNumber' =>
    obtain ⟨rfl, restSame⟩ := List.cons.inj same
    obtain rfl : literal = literal' := TokenKind.number.inj (isNumber.symm.trans isNumber')
    exact ⟨rfl, restSame⟩
  | var token' isName isVariable => cases kinds_agree same isNumber isName
  | constant token' isName literal' isConstant =>
    cases kinds_agree same isNumber isName
  | group opening opens inner closing closes =>
    cases kinds_agree same isNumber opens
  | call name isName function isFunction opening opens first later closing closes =>
    cases kinds_agree same isNumber isName

theorem var (token : Token α) (isName : token.kind = .name)
    (isVariable : token.text = Expr.variableName) :
    (Phrase.var token isName isVariable).Unambiguous := by
  intro second rest rest' ends ends' same
  cases second with
  | number token' literal' isNumber => cases kinds_agree same isName isNumber
  | var token' isName' isVariable' =>
    obtain ⟨rfl, restSame⟩ := List.cons.inj same
    exact ⟨rfl, restSame⟩
  | constant token' isName' literal' isConstant =>
    obtain ⟨rfl, _⟩ := List.cons.inj same
    rw [isVariable] at isConstant
    cases isConstant
  | group opening opens inner closing closes => cases kinds_agree same isName opens
  | call name isName' function isFunction opening opens first later closing closes =>
    exact absurd opens (ends opening _ (List.cons.inj same).2)

theorem constant (token : Token α) (isName : token.kind = .name) (literal : α)
    (isConstant : Numeral.constant? token.text = some literal) :
    (Phrase.constant token isName literal isConstant).Unambiguous := by
  intro second rest rest' ends ends' same
  cases second with
  | number token' literal' isNumber => cases kinds_agree same isName isNumber
  | var token' isName' isVariable =>
    obtain ⟨rfl, _⟩ := List.cons.inj same
    rw [isVariable] at isConstant
    cases isConstant
  | constant token' isName' literal' isConstant' =>
    obtain ⟨rfl, restSame⟩ := List.cons.inj same
    obtain rfl : literal = literal' := Option.some.inj (isConstant.symm.trans isConstant')
    exact ⟨rfl, restSame⟩
  | group opening opens inner closing closes => cases kinds_agree same isName opens
  | call name isName' function isFunction opening opens first later closing closes =>
    exact absurd opens (ends opening _ (List.cons.inj same).2)

theorem group {opening closing : Token α} (opens : opening.kind = .opening)
    {inner : Phrase α (.expr .sum)} (closes : closing.kind = .closing) (ih : inner.Unambiguous) :
    (Phrase.group opening opens inner closing closes).Unambiguous := by
  intro second rest rest' ends ends' same
  cases second with
  | number token' literal' isNumber => cases kinds_agree same opens isNumber
  | var token' isName isVariable => cases kinds_agree same opens isName
  | constant token' isName literal isConstant => cases kinds_agree same opens isName
  | group opening' opens' inner' closing' closes' =>
    simp only [tokens, List.cons_append, List.cons.injEq, List.append_assoc,
      List.nil_append] at same
    obtain ⟨rfl, innerSame⟩ := same
    obtain ⟨rfl, closingSame⟩ := ih inner' _ _
      (Grade.endsBefore_cons _ (Rank.ends_closing closes .sum))
      (Grade.endsBefore_cons _ (Rank.ends_closing closes' .sum)) innerSame
    obtain ⟨rfl, restSame⟩ := List.cons.inj closingSame
    exact ⟨rfl, restSame⟩
  | call name isName function isFunction opening' opens' first later closing' closes' =>
    cases kinds_agree same opens isName

theorem call {name opening closing : Token α} (isName : name.kind = .name) {function : Elementary}
    (isFunction : Elementary.ofName? name.text = some function) (opens : opening.kind = .opening)
    {first : Phrase α (.expr .sum)} {later : Phrase α .arguments}
    (closes : closing.kind = .closing) (ihFirst : first.Unambiguous)
    (ihLater : later.Unambiguous) :
    (Phrase.call name isName function isFunction opening opens first later closing
      closes).Unambiguous := by
  intro second rest rest' ends ends' same
  cases second with
  | number token' literal' isNumber => cases kinds_agree same isName isNumber
  | var token' isName' isVariable =>
    exact absurd opens (ends' opening _ (List.cons.inj same).2.symm)
  | constant token' isName' literal isConstant =>
    exact absurd opens (ends' opening _ (List.cons.inj same).2.symm)
  | group opening' opens' inner' closing' closes' =>
    cases kinds_agree same isName opens'
  | call name' isName' function' isFunction' opening' opens' first' later' closing' closes' =>
    simp only [tokens, List.cons_append, List.cons.injEq, List.append_assoc,
      List.nil_append] at same
    obtain ⟨rfl, rfl, insideSame⟩ := same
    obtain rfl : function = function' := Option.some.inj (isFunction.symm.trans isFunction')
    have laterEnds : Grade.arguments.EndsBefore (closing :: rest) :=
      Grade.endsBefore_cons _ (Grade.ends_closing closes)
    have laterEnds' : Grade.arguments.EndsBefore (closing' :: rest') :=
      Grade.endsBefore_cons _ (Grade.ends_closing closes')
    obtain ⟨rfl, laterSame⟩ := ihFirst first' _ _ (arguments_endsBefore later laterEnds)
      (arguments_endsBefore later' laterEnds') insideSame
    obtain ⟨rfl, closingSame⟩ := ihLater later' _ _ laterEnds laterEnds' laterSame
    obtain ⟨rfl, restSame⟩ := List.cons.inj closingSame
    exact ⟨rfl, restSame⟩

theorem noArgument : (Phrase.noArgument : Phrase α .arguments).Unambiguous := by
  intro second rest rest' ends ends' same
  cases second with
  | noArgument => exact ⟨rfl, same⟩
  | argument comma separates next later => exact absurd separates (ends comma _ same).2

theorem argument {comma : Token α} (separates : comma.kind = .comma)
    {next : Phrase α (.expr .sum)} {later : Phrase α .arguments} (ihNext : next.Unambiguous)
    (ihLater : later.Unambiguous) : (Phrase.argument comma separates next later).Unambiguous := by
  intro second rest rest' ends ends' same
  cases second with
  | noArgument => exact absurd separates (ends' comma _ same.symm).2
  | argument comma' separates' next' later' =>
    simp only [tokens, List.cons_append, List.cons.injEq, List.append_assoc] at same
    obtain ⟨rfl, nextSame⟩ := same
    obtain ⟨rfl, laterSame⟩ := ihNext next' _ _ (arguments_endsBefore later ends)
      (arguments_endsBefore later' ends') nextSame
    obtain ⟨rfl, restSame⟩ := ihLater later' rest rest' ends ends' laterSame
    exact ⟨rfl, restSame⟩

end Unambiguous

theorem unambiguous {grade : Grade} (phrase : Phrase α grade) : phrase.Unambiguous := by
  induction phrase with
  | sum operand links ihOperand ihLinks => exact .sum ihOperand ihLinks
  | product operand links ihOperand ihLinks => exact .product ihOperand ihLinks
  | noLink => exact .noLink
  | link sign operator joins right later ihRight ihLater => exact .link joins ihRight ihLater
  | minus sign isMinus negated ih => exact .minus isMinus ih
  | unsigned power ih => exact .unsigned ih
  | unraised operand ih => exact .unraised ih
  | raised base sign isCaret exponent ihBase ihExponent => exact .raised isCaret ihBase ihExponent
  | number token literal isNumber => exact .number token literal isNumber
  | var token isName isVariable => exact .var token isName isVariable
  | constant token isName literal isConstant => exact .constant token isName literal isConstant
  | group opening opens inner closing closes ih => exact .group opens closes ih
  | call name isName function isFunction opening opens first later closing closes ihFirst ihLater =>
    exact .call isName isFunction opens closes ihFirst ihLater
  | noArgument => exact .noArgument
  | argument comma separates next later ihNext ihLater => exact .argument separates ihNext ihLater

end Phrase

end Tangency
