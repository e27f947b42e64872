/-
Why a reader of formulas fails.

A reader that fails has exceeded a limit, or has met a token that is impossible where it
stands.  In the latter case the tokens before it begin a phrase, and no step leads over
the token, in whatever the phrase stands.  A name that is no operand, and a call with a
wrong number of arguments, are impossible too, but reported at the name.

The outcome is followed from reader to reader: what a reader reports is true of the
reader that it was called by, whose own tokens are in front.  A reader that succeeds stops
at a token that cannot continue its phrase.
-/

import Tangency.Proofs.Expectation
import Tangency.Proofs.GrammarReading

namespace Tangency

variable {α : Type}

/-- A limit was exceeded: the depth, or the number of operators and operands. -/
def Failure.IsLimit : Failure α → Prop
  | .malformed _ fault => fault = .nestedTooDeeply ∨ fault = .tooLong Reader.nodeLimit
  | _ => False

def Fault.misplaced? : Fault → Option Found
  | .operandMissing found | .closingMissing found | .trailing found => some found
  | _ => none

def Failure.misplaced? : Failure α → Option (Nat × Found)
  | .malformed position fault => fault.misplaced?.map fun found => (position, found)
  | _ => none

/-- A token behind an expression of the rank that no reader of the rank goes on with. -/
def Rank.Stops : Rank → Token α → Prop
  | .operand, _ => True
  | .power, token | .unary, token => token.symbol? ≠ some '^'
  | .product, token => token.symbol? ≠ some '^' ∧ Reader.multiplicative? token = none
  | .sum, token =>
    (token.symbol? ≠ some '^' ∧ Reader.multiplicative? token = none) ∧
      Reader.additive? token = none

def Grade.Stops : Grade → Token α → Prop
  | .expr rank, token => rank.Stops token
  | .links chain, token => chain.operand.Stops token ∧ chain.operator? token = none
  | .arguments, token => Rank.sum.Stops token ∧ token.kind ≠ .comma

open Expectation

theorem step_of_stops [Numeral α] {counted : Bool} {token : Token α} {around : List Enclosure}
    (stops : Rank.sum.Stops token) (goesOn : around ≠ [] ∨ token.isFinish = false) :
    step counted (operator around) token = afterArgument counted token.kind around := by
  have unjoined : ∀ symbol, token.symbol? = some symbol → Operator.ofSymbol? symbol = none := by
    intro symbol isSymbol
    have noCaret := stops.1.1
    have noProduct := stops.1.2
    have noSum := stops.2
    rw [Reader.multiplicative?, isSymbol] at noProduct
    rw [Reader.additive?, isSymbol] at noSum
    rw [isSymbol] at noCaret
    cases isFound : Operator.ofSymbol? symbol with
    | none => rfl
    | some found =>
      rw [← Operator.symbol_of_ofSymbol? isFound] at noProduct noSum noCaret
      cases found <;> simp [Operator.symbol] at noProduct noSum noCaret
  cases kindEq : token.kind with
  | operator symbol =>
    have none := unjoined symbol ((Token.symbol?_eq_some_iff token symbol).mpr kindEq)
    simp only [step, kindEq, none, Option.isSome_none, Bool.false_eq_true, if_false]
    cases around <;> rfl
  | finish =>
    rcases goesOn with enclosed | goesOn
    · cases around with
      | nil => exact absurd rfl enclosed
      | cons => simp only [step, kindEq]
    · rw [Token.isFinish, kindEq] at goesOn
      cases goesOn
  | _ => simp only [step, kindEq]

def Grade.BeginsAt : Grade → Expectation → Prop
  | .expr _, place => ∃ around, place = .operand around
  | .links _, place => ∃ around, place = .operator around
  | .arguments, place =>
    ∃ function earlier around, place = .operator (.call function earlier :: around)

variable [Numeral α]

/-- Why no phrase of the grade was found at the front of some tokens. -/
inductive Refused (grade : Grade) (tokens : List (Token α)) (failure : Failure α) : Prop where
  | limit (exceeded : failure.IsLimit)
  /-- The token is reported, and it is the first that is impossible. -/
  | misplaced (seen later : List (Token α)) (token : Token α)
      (tokensEq : tokens = seen ++ token :: later)
      (reported : failure.misplaced? = some (token.position, token.found))
      (begun : ∃ phrase : Phrase α grade, seen <+: phrase.tokens)
      (stuck : ∀ place, grade.BeginsAt place → follow false (seen ++ [token]) place = none)
  /-- The tokens are impossible if arguments are counted. -/
  | unnamed (other : failure.misplaced? = none)
      (stuck : ∀ place, grade.BeginsAt place → follow true tokens place = none)

/-- What is refused behind some tokens is refused with them in front, if the phrases behind them can
be completed and the tokens lead to where such a phrase begins. -/
theorem Refused.behind {inner outer : Grade} {tokens : List (Token α)} {failure : Failure α}
    (front : List (Token α)) (refused : Refused inner tokens failure)
    (completed : ∀ phrase : Phrase α inner,
      ∃ whole : Phrase α outer, front ++ phrase.tokens <+: whole.tokens)
    (leads : ∀ counted place, outer.BeginsAt place →
      ∃ next, inner.BeginsAt next ∧ follow counted front place = some next) :
    Refused outer (front ++ tokens) failure := by
  cases refused with
  | limit exceeded => exact .limit exceeded
  | misplaced seen later token tokensEq reported begun stuck =>
    rcases begun with ⟨phrase, begins⟩
    rcases completed phrase with ⟨whole, wholeBegins⟩
    have inFront : front ++ seen <+: front ++ phrase.tokens :=
      (List.prefix_append_right_inj front).mpr begins
    refine .misplaced (front ++ seen) later token ?_ reported ⟨whole, inFront.trans wholeBegins⟩ ?_
    · rw [tokensEq, List.append_assoc]
    · intro place atBeginning
      rcases leads false place atBeginning with ⟨next, nextBegins, followed⟩
      rw [List.append_assoc, follow_append followed]
      exact stuck next nextBegins
  | unnamed other stuck =>
    refine .unnamed other ?_
    intro place atBeginning
    rcases leads true place atBeginning with ⟨next, nextBegins, followed⟩
    rw [follow_append followed]
    exact stuck next nextBegins

theorem Refused.widened {inner outer : Rank} {tokens : List (Token α)} {failure : Failure α}
    (refused : Refused (.expr inner) tokens failure)
    (completed : ∀ phrase : Phrase α (.expr inner),
      ∃ whole : Phrase α (.expr outer), phrase.tokens <+: whole.tokens) :
    Refused (.expr outer) tokens failure := by
  refine Refused.behind [] refused completed ?_
  intro counted place begins
  exact ⟨place, begins, follow_nil⟩

/-- What a reader of a grade comes to: it stops where no phrase goes on, or refuses the tokens. -/
def Grade.Settles {β : Type} (grade : Grade) (tokens : List (Token α)) :
    EStateM.Result (Failure α) (Cursor α) β → Prop
  | .ok _ last => grade.Stops last.front
  | .error failure _ => Refused grade tokens failure

theorem Grade.Settles.behind {β : Type} {inner outer : Grade} {tokens : List (Token α)}
    {result : EStateM.Result (Failure α) (Cursor α) β} (front : List (Token α))
    (settles : inner.Settles tokens result)
    (weaker : ∀ token : Token α, inner.Stops token → outer.Stops token)
    (completed : ∀ phrase : Phrase α inner,
      ∃ whole : Phrase α outer, front ++ phrase.tokens <+: whole.tokens)
    (leads : ∀ counted place, outer.BeginsAt place →
      ∃ next, inner.BeginsAt next ∧ follow counted front place = some next) :
    outer.Settles (front ++ tokens) result := by
  cases result with
  | ok found last => exact weaker last.front settles
  | error failure last => exact Refused.behind front settles completed leads

end Tangency
