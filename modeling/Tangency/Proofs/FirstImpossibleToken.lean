/-
A failure points at the first impossible token.

Where a reader reports a token that was found instead of another, the tokens before it begin
a formula, and no formula begins with it behind them.  So reading neither passes a wrong
token nor blames a good one.

A token list that is a formula with accepted calls is refused for a limit only.
-/

import Tangency.Proofs.FormulaGrammar
import Tangency.Proofs.ReaderOutcomes

namespace Tangency

variable {α : Type} [Numeral α]

open Expectation

theorem Phrase.follow_finish (phrase : Phrase α (.expr .sum)) {counted : Bool} {finish : Token α}
    (finishes : finish.isFinish = true) (accepted : counted = true → phrase.CallsAccepted) :
    follow counted (phrase.tokens ++ [finish]) (.operand []) = some .nothing := by
  rw [follow_append (phrase.followed accepted [])]
  exact follow_singleton (step_finish finishes)

theorem Phrase.not_begins_of_stuck (phrase : Phrase α (.expr .sum)) {finish : Token α}
    (finishes : finish.isFinish = true) {tokens : List (Token α)}
    (stuck : follow false tokens (.operand []) = none) :
    ¬tokens <+: phrase.tokens ++ [finish] := by
  rintro ⟨rest, whole⟩
  have leads : follow false (phrase.tokens ++ [finish]) (.operand []) = some .nothing :=
    phrase.follow_finish finishes nofun
  rw [← whole, follow_append_eq_none stuck] at leads
  cases leads

namespace Expectation

omit [Numeral α] in
theorem afterArgument_uncounted {kind : TokenKind α} {around : List Enclosure} {next : Expectation}
    (leads : afterArgument true kind around = some next) :
    afterArgument false kind around = some next := by
  unfold afterArgument at leads
  split at leads
  · exact leads
  · split at leads
    · cases leads
    · exact leads
  · exact leads
  · cases leads

theorem step_uncounted {place next : Expectation} {token : Token α}
    (leads : step true place token = some next) : step false place token = some next := by
  unfold step at leads ⊢
  split at leads <;> first | exact leads | exact afterArgument_uncounted leads

theorem follow_uncounted {tokens : List (Token α)} :
    ∀ {place next : Expectation}, follow true tokens place = some next →
      follow false tokens place = some next := by
  induction tokens with
  | nil =>
    intro place next leads
    exact leads
  | cons token later ih =>
    intro place next leads
    cases first : step true place token with
    | none =>
      rw [follow_cons_eq_none first] at leads
      cases leads
    | some between =>
      rw [follow_cons first] at leads
      rw [follow_cons (step_uncounted first)]
      exact ih leads

end Expectation

omit [Numeral α] in
theorem Failure.not_isLimit_of_misplaced {failure : Failure α} {found : Nat × Found}
    (reported : failure.misplaced? = some found) : ¬failure.IsLimit := by
  intro exceeded
  cases failure with
  | malformed position fault =>
    rcases exceeded with rfl | rfl
    · cases reported
    · cases reported
  | _ => cases reported

namespace Reader

theorem formula_eq_error {cursor last : Cursor α} {failure : Failure α}
    (failed : Reader.formula cursor = .error failure last) :
    (level depthLimit).sum cursor = .error failure last ∨
      ∃ tree, (level depthLimit).sum cursor = .ok tree last ∧ last.front.isFinish = false ∧
        failure = .malformed last.front.position (.trailing last.front.found) := by
  rcases bind_eq_error failed with sumFailed | ⟨tree, between, sumRead, behindFailed⟩
  · exact .inl sumFailed
  · rw [front_bind] at behindFailed
    split at behindFailed
    · cases behindFailed
    · rename_i goesOn
      cases behindFailed
      exact .inr ⟨tree, sumRead, eq_false_of_ne_true goesOn, rfl⟩

/-- A formula is refused for a limit, for its first impossible token, or for a name or a call. -/
theorem formula_refused {cursor last : Cursor α} {failure : Failure α}
    (closed : Closed cursor.tokens) (failed : Reader.formula cursor = .error failure last) :
    failure.IsLimit ∨
      (∃ seen token later, cursor.tokens = seen ++ token :: later ∧
        failure.misplaced? = some (token.position, token.found) ∧
        (∃ phrase : Phrase α (.expr .sum), seen <+: phrase.tokens) ∧
        follow false (seen ++ [token]) (.operand []) = none) ∨
      (failure.misplaced? = none ∧ follow true cursor.tokens (.operand []) = none) := by
  have settles := (level_explains (α := α) depthLimit).2 cursor closed
  rcases formula_eq_error failed with sumFailed | ⟨tree, sumRead, goesOn, rfl⟩
  · rw [sumFailed] at settles
    cases settles with
    | limit exceeded => exact .inl exceeded
    | misplaced seen later token tokensEq reported begun stuck =>
      exact .inr (.inl ⟨seen, token, later, tokensEq, reported, begun, stuck _ ⟨[], rfl⟩⟩)
    | unnamed other stuck => exact .inr (.inr ⟨other, stuck _ ⟨[], rfl⟩⟩)
  · -- A whole formula was read, so the token behind it is the first that is impossible.
    rcases (level_recognizes (α := α) depthLimit).2.sound closed sumRead with ⟨phrase, -, spans⟩
    rw [sumRead] at settles
    refine .inr (.inl ⟨phrase.tokens, last.front, last.behind, spans.passes.tokens_eq, rfl,
      ⟨phrase, List.prefix_rfl⟩, ?_⟩)
    rw [follow_append (phrase.followed (fun _ => spans.accepted) [])]
    refine follow_cons_eq_none ?_
    rw [step_of_stops settles (.inr goesOn)]
    exact afterArgument_nil

end Reader

namespace Expr

theorem ofTokens?_eq_error_iff {first : Token α} {behind : List (Token α)} {failure : Failure α} :
    ofTokens? (first :: behind) = .error failure ↔
      ∃ last, Reader.formula ⟨first, behind, Reader.nodeLimit, 0⟩ = .error failure last := by
  change _ ↔ ∃ last, readTokens first behind = .error failure last
  rw [ofTokens?]
  cases readTokens first behind with
  | ok tree last =>
    constructor
    · intro impossible
      cases impossible
    · rintro ⟨_, impossible⟩
      cases impossible
  | error reported last =>
    constructor
    · intro same
      cases same
      exact ⟨last, rfl⟩
    · rintro ⟨_, same⟩
      cases same
      rfl

variable {body : List (Token α)} {last : Token α} {failure : Failure α}

theorem refused_of_ofTokens?_eq_error (goOn : ∀ token ∈ body, token.isFinish = false)
    (finishes : last.isFinish = true) (failed : ofTokens? (body ++ [last]) = .error failure) :
    failure.IsLimit ∨
      (∃ seen token later, body ++ [last] = seen ++ token :: later ∧
        failure.misplaced? = some (token.position, token.found) ∧
        (∃ phrase : Phrase α (.expr .sum), seen <+: phrase.tokens) ∧
        follow false (seen ++ [token]) (.operand []) = none) ∨
      (failure.misplaced? = none ∧ follow true (body ++ [last]) (.operand []) = none) := by
  have closed := Closed.append_singleton goOn finishes
  cases tokensEq : body ++ [last] with
  | nil => exact absurd tokensEq (List.append_ne_nil_of_right_ne_nil body (List.cons_ne_nil _ _))
  | cons first behind =>
    rw [tokensEq] at closed failed
    rcases ofTokens?_eq_error_iff.mp failed with ⟨cursor, formulaFailed⟩
    have closedStart :
        Closed (Cursor.tokens (⟨first, behind, Reader.nodeLimit, 0⟩ : Cursor α)) := closed
    exact Reader.formula_refused closedStart formulaFailed

theorem isLimit_of_ofTokens?_eq_error (phrase : Phrase α (.expr .sum))
    (goOn : ∀ token ∈ phrase.tokens, token.isFinish = false) (finishes : last.isFinish = true)
    (accepted : phrase.CallsAccepted)
    (failed : ofTokens? (phrase.tokens ++ [last]) = .error failure) : failure.IsLimit := by
  have leads : follow true (phrase.tokens ++ [last]) (.operand []) = some .nothing :=
    phrase.follow_finish finishes fun _ => accepted
  rcases refused_of_ofTokens?_eq_error goOn finishes failed with
    exceeded | ⟨seen, token, later, tokensEq, -, -, stuck⟩ | ⟨-, stuck⟩
  · exact exceeded
  · have possible := follow_uncounted leads
    rw [tokensEq, List.append_cons, follow_append_eq_none stuck] at possible
    cases possible
  · rw [stuck] at leads
    cases leads

end Expr

/-- If reading reports a token that was found in place of an operand, of a closing parenthesis or of
the end, then the token stands at the reported position, the tokens before it begin a formula, and
with it behind them they begin none. Limits and the numbers of arguments restrict no formula here,
and the tokens are any list with `finish` at its end only. -/
theorem misplaced_token_is_first_impossible (body : List (Token α)) (last : Token α)
    (goOn : ∀ token ∈ body, token.isFinish = false) (finishes : last.isFinish = true)
    (position : Nat) (fault : Fault) (found : Found) (misplaced : fault.misplaced? = some found)
    (failed : Expr.ofTokens? (body ++ [last]) = .error (.malformed position fault)) :
    ∃ seen token later, body ++ [last] = seen ++ token :: later ∧
      token.position = position ∧ token.found = found ∧
      (∃ phrase : Phrase α (.expr .sum), seen <+: phrase.tokens) ∧
      ∀ (phrase : Phrase α (.expr .sum)) (finish : Token α), finish.isFinish = true →
        ¬seen ++ [token] <+: phrase.tokens ++ [finish] := by
  have reported : (Failure.malformed position fault : Failure α).misplaced? =
      some (position, found) := by
    rw [Failure.misplaced?, misplaced]
    rfl
  rcases Expr.refused_of_ofTokens?_eq_error goOn finishes failed with
    exceeded | ⟨seen, token, later, tokensEq, reportedToken, begun, stuck⟩ | ⟨other, -⟩
  · exact absurd exceeded (Failure.not_isLimit_of_misplaced reported)
  · have same : (position, found) = (token.position, token.found) :=
      Option.some.inj (reported.symm.trans reportedToken)
    cases same
    refine ⟨seen, token, later, tokensEq, rfl, rfl, begun, ?_⟩
    intro phrase finish isFinish
    exact phrase.not_begins_of_stuck isFinish stuck
  · rw [reported] at other
    cases other

def unfinishedCallTokens : List (Token Binary64) :=
  [⟨.name, "sin", 0⟩, ⟨.opening, "(", 3⟩, ⟨.name, "x", 4⟩, ⟨.operator '+', "+", 6⟩,
    ⟨.closing, ")", 7⟩]

/-- In `sin(x +)` the parenthesis stands where an operand is due. -/
theorem misplaced_token_unfinishedCall :
    (∀ token ∈ unfinishedCallTokens, token.isFinish = false) ∧
      Expr.ofTokens? (unfinishedCallTokens ++ [(⟨.finish, "", 8⟩ : Token Binary64)]) =
        .error (.malformed 7 (.operandMissing (.token ")"))) ∧
      ∃ seen token later,
        unfinishedCallTokens ++ [(⟨.finish, "", 8⟩ : Token Binary64)] = seen ++ token :: later ∧
        token.position = 7 ∧ token.found = .token ")" ∧
        (∃ phrase : Phrase Binary64 (.expr .sum), seen <+: phrase.tokens) ∧
        ∀ (phrase : Phrase Binary64 (.expr .sum)) (finish : Token Binary64),
          finish.isFinish = true → ¬seen ++ [token] <+: phrase.tokens ++ [finish] := by
  have goOn : ∀ token ∈ unfinishedCallTokens, token.isFinish = false := by
    intro token member
    simp only [unfinishedCallTokens, List.mem_cons, List.not_mem_nil, or_false] at member
    rcases member with rfl | rfl | rfl | rfl | rfl <;> rfl
  have failed : Expr.ofTokens? (unfinishedCallTokens ++ [(⟨.finish, "", 8⟩ : Token Binary64)]) =
      .error (.malformed 7 (.operandMissing (.token ")"))) := by
    rfl
  exact ⟨goOn, failed,
    misplaced_token_is_first_impossible _ _ goOn rfl 7 _ _ rfl failed⟩

end Tangency
