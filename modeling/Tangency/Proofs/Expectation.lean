/-
What may stand next in a formula.

Reading a formula from the left, two things decide whether a token is possible: whether an
operand is due, and what is still open around the place, groups and calls with the number
of arguments already behind.  A step takes the token at hand to the next place or has no
result, so a token list is followed as far as it can be.

Every phrase of the grammar is followed from its beginning to its end, in whatever it
stands.  Counting the arguments of a call is optional, since the grammar does not ask for
it.  Precedence plays no part here: it decides how a formula is grouped, and not what may
stand next.
-/

import Tangency.Proofs.GrammarUnique

namespace Tangency

/-- A parenthesis that is open: that of a group, or that of a call with the number of arguments
before the one at hand. -/
inductive Enclosure where
  | group
  | call (function : Elementary) (earlier : Nat)

/-- What is due at a place, and what is open around it, the innermost first. -/
inductive Expectation where
  | operand (around : List Enclosure)
  /-- The parenthesis behind the name of a function. -/
  | opening (function : Elementary) (around : List Enclosure)
  /-- An operator, or the end of what is open. -/
  | operator (around : List Enclosure)
  | nothing

variable {α : Type}

namespace Expectation

section Steps

variable [Numeral α]

def afterName (token : Token α) (around : List Enclosure) : Option Expectation :=
  if token.text = Expr.variableName ∨ (Numeral.constant? (α := α) token.text).isSome then
    some (operator around)
  else (Elementary.ofName? token.text).map fun function => opening function around

/-- Where a comma or a closing parenthesis leads. A call that is counted closes only behind a number
of arguments that its function accepts. -/
def afterArgument (counted : Bool) (kind : TokenKind α) (around : List Enclosure) :
    Option Expectation :=
  match kind, around with
  | .closing, .group :: outer => some (operator outer)
  | .closing, .call function earlier :: outer =>
    if counted && !function.acceptsCount (earlier + 1) then none else some (operator outer)
  | .comma, .call function earlier :: outer =>
    some (operand (.call function (earlier + 1) :: outer))
  | _, _ => none

def step (counted : Bool) (expectation : Expectation) (token : Token α) : Option Expectation :=
  match expectation, token.kind with
  | operand around, .number _ => some (operator around)
  | operand around, .name => afterName token around
  | operand around, .opening => some (operand (.group :: around))
  | operand around, .operator symbol => if symbol = '-' then some (operand around) else none
  | opening function around, .opening => some (operand (.call function 0 :: around))
  | operator around, .operator symbol =>
    if (Operator.ofSymbol? symbol).isSome then some (operand around) else none
  | operator [], .finish => some nothing
  | operator around, kind => afterArgument counted kind around
  | _, _ => none

def follow (counted : Bool) (tokens : List (Token α)) (expectation : Expectation) :
    Option Expectation :=
  tokens.foldlM (step counted) expectation

variable {counted : Bool} {expectation next : Expectation} {tokens : List (Token α)}

theorem follow_nil : follow counted ([] : List (Token α)) expectation = some expectation := rfl

theorem follow_cons {token : Token α} (leads : step counted expectation token = some next) :
    follow counted (token :: tokens) expectation = follow counted tokens next := by
  rw [follow, List.foldlM_cons, leads]
  rfl

theorem follow_singleton {token : Token α} (leads : step counted expectation token = some next) :
    follow counted [token] expectation = some next :=
  follow_cons leads

theorem follow_cons_eq_none {token : Token α} (stuck : step counted expectation token = none) :
    follow counted (token :: tokens) expectation = none := by
  rw [follow, List.foldlM_cons, stuck]
  rfl

theorem follow_append {front : List (Token α)}
    (leads : follow counted front expectation = some next) :
    follow counted (front ++ tokens) expectation = follow counted tokens next := by
  rw [follow] at leads
  rw [follow, List.foldlM_append, leads]
  rfl

theorem follow_append_eq_none {front : List (Token α)}
    (stuck : follow counted front expectation = none) :
    follow counted (front ++ tokens) expectation = none := by
  rw [follow] at stuck
  rw [follow, List.foldlM_append, stuck]
  rfl

variable {token : Token α} {around : List Enclosure}

theorem step_number {literal : α} (isNumber : token.kind = .number literal) :
    step counted (operand around) token = some (operator around) := by
  cases token
  cases isNumber
  rfl

theorem step_opening (opens : token.kind = .opening) :
    step counted (operand around) token = some (operand (.group :: around)) := by
  cases token
  cases opens
  rfl

theorem step_minus (isMinus : token.symbol? = some '-') :
    step counted (operand around) token = some (operand around) := by
  have isSign := (Token.symbol?_eq_some_iff token '-').mp isMinus
  cases token
  cases isSign
  rfl

theorem step_name (isName : token.kind = .name) :
    step counted (operand around) token = afterName token around := by
  cases token
  cases isName
  rfl

theorem afterName_function {function : Elementary}
    (isFunction : Elementary.ofName? token.text = some function) :
    afterName token around = some (opening function around) := by
  have noOperand :
      ¬(token.text = Expr.variableName ∨ (Numeral.constant? (α := α) token.text).isSome) := by
    rintro (isVariable | isConstant)
    · rw [isVariable] at isFunction
      cases isFunction
    · simp only [Numeral.constant?] at isConstant
      split at isConstant
      · rename_i isPi
        rw [eq_of_beq isPi] at isFunction
        cases isFunction
      · split at isConstant
        · rename_i isEuler
          rw [eq_of_beq isEuler] at isFunction
          cases isFunction
        · cases isConstant
  rw [afterName, if_neg noOperand, isFunction]
  rfl

theorem step_call {function : Elementary} (opens : token.kind = .opening) :
    step counted (opening function around) token = some (operand (.call function 0 :: around)) := by
  cases token
  cases opens
  rfl

theorem step_symbol {symbol : Char} (isSymbol : token.symbol? = some symbol)
    (known : (Operator.ofSymbol? symbol).isSome) :
    step counted (operator around) token = some (operand around) := by
  have isSign := (Token.symbol?_eq_some_iff token symbol).mp isSymbol
  cases token
  cases isSign
  exact if_pos known

theorem step_joins {chain : Chain} {joined : Operator}
    (joins : chain.operator? token = some joined) :
    step counted (operator around) token = some (operand around) := by
  cases chain with
  | additive =>
    simp only [Chain.operator?, Reader.additive?] at joins
    split at joins
    · exact step_symbol ‹_› rfl
    · exact step_symbol ‹_› rfl
    · cases joins
  | multiplicative =>
    simp only [Chain.operator?, Reader.multiplicative?] at joins
    split at joins
    · exact step_symbol ‹_› rfl
    · exact step_symbol ‹_› rfl
    · cases joins

theorem step_closing_group (closes : token.kind = .closing) :
    step counted (operator (.group :: around)) token = some (operator around) := by
  cases token
  cases closes
  rfl

theorem step_closing_call {function : Elementary} {earlier : Nat} (closes : token.kind = .closing)
    (accepts : counted = true → function.acceptsCount (earlier + 1) = true) :
    step counted (operator (.call function earlier :: around)) token = some (operator around) := by
  cases token
  cases closes
  have noRefusal : ¬(counted && !function.acceptsCount (earlier + 1)) = true := by
    cases counted with
    | false => exact Bool.false_ne_true
    | true => simp only [accepts rfl, Bool.not_true, Bool.and_false, Bool.false_eq_true,
        not_false_eq_true]
  exact if_neg noRefusal

theorem step_closing_call_eq_none {function : Elementary} {earlier : Nat}
    (closes : token.kind = .closing) (refuses : function.acceptsCount (earlier + 1) = false) :
    step true (operator (.call function earlier :: around)) token = none := by
  cases token
  cases closes
  have refused : (true && !function.acceptsCount (earlier + 1)) = true := by
    rw [refuses]
    rfl
  exact if_pos refused

theorem step_comma {function : Elementary} {earlier : Nat} (separates : token.kind = .comma) :
    step counted (operator (.call function earlier :: around)) token =
      some (operand (.call function (earlier + 1) :: around)) := by
  cases token
  cases separates
  rfl

section Arguments

omit [Numeral α]

theorem afterArgument_group {kind : TokenKind α} (noClosing : kind ≠ .closing) :
    afterArgument counted kind (.group :: around) = none := by
  cases kind with
  | closing => exact absurd rfl noClosing
  | _ => rfl

theorem afterArgument_call {kind : TokenKind α} {function : Elementary} {earlier : Nat}
    (noClosing : kind ≠ .closing) (noComma : kind ≠ .comma) :
    afterArgument counted kind (.call function earlier :: around) = none := by
  cases kind with
  | closing => exact absurd rfl noClosing
  | comma => exact absurd rfl noComma
  | _ => rfl

theorem afterArgument_nil {kind : TokenKind α} : afterArgument counted kind [] = none := by
  cases kind <;> rfl

end Arguments

theorem step_finish (finishes : token.isFinish = true) :
    step counted (operator []) token = some nothing := by
  cases token with
  | mk kind text position =>
    cases kind with
    | finish => rfl
    | _ => cases finishes

end Steps

end Expectation

/-! ### Following a phrase -/

namespace Phrase

variable [Numeral α]

open Expectation

/-- The tokens of the phrase are followed to its end, whatever is open around it. Behind the
arguments of a call, their number has been added. -/
def Followed (counted : Bool) : {grade : Grade} → Phrase α grade → Prop
  | .expr _, phrase =>
    ∀ around, follow counted phrase.tokens (.operand around) = some (.operator around)
  | .links _, phrase =>
    ∀ around, follow counted phrase.tokens (.operator around) = some (.operator around)
  | .arguments, phrase => ∀ function earlier around,
    follow counted phrase.tokens (.operator (.call function earlier :: around)) =
      some (.operator (.call function (earlier + phrase.meaning.length) :: around))

theorem followed {grade : Grade} (phrase : Phrase α grade) {counted : Bool}
    (accepted : counted = true → phrase.CallsAccepted) : phrase.Followed counted := by
  induction phrase with
  | sum first later ihFirst ihLater =>
    intro around
    rw [tokens, follow_append (ihFirst (fun counts => (accepted counts).1) around)]
    exact ihLater (fun counts => (accepted counts).2) around
  | product first later ihFirst ihLater =>
    intro around
    rw [tokens, follow_append (ihFirst (fun counts => (accepted counts).1) around)]
    exact ihLater (fun counts => (accepted counts).2) around
  | noLink =>
    intro around
    rfl
  | link sign operator joins right later ihRight ihLater =>
    intro around
    rw [tokens, follow_cons (step_joins joins),
      follow_append (ihRight (fun counts => (accepted counts).1) around)]
    exact ihLater (fun counts => (accepted counts).2) around
  | minus sign isMinus negated ih =>
    intro around
    rw [tokens, follow_cons (step_minus isMinus)]
    exact ih accepted around
  | unsigned power ih => exact ih accepted
  | unraised operand ih => exact ih accepted
  | raised base sign isCaret exponent ihBase ihExponent =>
    intro around
    rw [tokens, follow_append (ihBase (fun counts => (accepted counts).1) around),
      follow_cons (step_symbol isCaret rfl)]
    exact ihExponent (fun counts => (accepted counts).2) around
  | number token literal isNumber =>
    intro around
    rw [tokens, follow_cons (step_number isNumber), follow_nil]
  | var token isName isVariable =>
    intro around
    rw [tokens, follow_cons ((step_name isName).trans (if_pos (.inl isVariable))), follow_nil]
  | constant token isName literal isConstant =>
    intro around
    have known : (Numeral.constant? (α := α) token.text).isSome := by rw [isConstant]; rfl
    rw [tokens, follow_cons ((step_name isName).trans (if_pos (.inr known))), follow_nil]
  | group opening opens inner closing closes ih =>
    intro around
    rw [tokens, follow_cons (step_opening opens), follow_append (ih accepted _),
      follow_cons (step_closing_group closes), follow_nil]
  | call name isName function isFunction opening opens first later closing closes ihFirst ihLater =>
    intro around
    have accepts :
        counted = true → function.acceptsCount (0 + later.meaning.length + 1) = true := by
      intro counts
      rw [Nat.zero_add]
      exact (accepted counts).2.2
    rw [tokens, follow_cons ((step_name isName).trans (afterName_function isFunction)),
      follow_cons (step_call opens), follow_append (ihFirst (fun counts => (accepted counts).1) _),
      follow_append (ihLater (fun counts => (accepted counts).2.1) _ _ _),
      follow_cons (step_closing_call closes accepts), follow_nil]
  | noArgument =>
    intro function earlier around
    rfl
  | argument comma separates next later ihNext ihLater =>
    intro function earlier around
    rw [tokens, follow_cons (step_comma separates),
      follow_append (ihNext (fun counts => (accepted counts).1) _),
      ihLater (fun counts => (accepted counts).2), meaning, List.length_cons, Nat.add_assoc,
      Nat.add_comm 1]

end Phrase

end Tangency
