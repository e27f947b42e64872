/-
Formulas are read by their grammar, within the two limits and not otherwise.

A token list that ends in its only `finish` is accepted exactly if it has a phrase
whose calls are accepted, whose operators and operands are no more than can be paid
for, and whose depth is no more than there are levels.  There is at most one such
phrase, so the limits are conditions on the text and not on a choice.
-/

import Tangency.Proofs.GrammarReading

namespace Tangency

variable {α : Type} [Numeral α]

namespace Expr

theorem ofTokens?_eq_ok_iff_readTokens {first : Token α} {behind : List (Token α)} {tree : Expr α} :
    ofTokens? (first :: behind) = .ok tree ↔
      ∃ last, Reader.formula ⟨first, behind, Reader.nodeLimit, 0⟩ = .ok tree last := by
  change _ ↔ ∃ last, readTokens first behind = .ok tree last
  rw [ofTokens?]
  cases readTokens first behind with
  | ok found last =>
    constructor
    · intro same
      cases same
      exact ⟨last, rfl⟩
    · rintro ⟨_, same⟩
      cases same
      rfl
  | error failure last =>
    constructor
    · intro impossible
      cases impossible
    · rintro ⟨_, impossible⟩
      cases impossible

theorem formula_eq_ok_iff {cursor last : Cursor α} {tree : Expr α} :
    Reader.formula cursor = .ok tree last ↔
      (Reader.level Reader.depthLimit).sum cursor = .ok tree last ∧ last.front.isFinish = true := by
  unfold Reader.formula
  rw [Reader.bind_eq_ok_iff]
  constructor
  · rintro ⟨found, between, sumRead, read⟩
    rw [Reader.front_bind] at read
    split at read
    · rename_i finishes
      cases read
      exact ⟨sumRead, finishes⟩
    · cases read
  · rintro ⟨sumRead, finishes⟩
    refine ⟨tree, last, sumRead, ?_⟩
    rw [Reader.front_bind, if_pos finishes]
    rfl

theorem formula_of_phrase (phrase : Phrase α (.expr .sum)) {first last : Token α}
    {behind : List (Token α)} (tokensEq : phrase.tokens ++ [last] = first :: behind)
    (finishes : last.isFinish = true) (accepted : phrase.CallsAccepted)
    (shallow : phrase.depth ≤ Reader.depthLimit) {allowance : Nat}
    (enough : phrase.nodes ≤ allowance) :
    Reader.formula ⟨first, behind, allowance, 0⟩ =
      .ok phrase.meaning ⟨last, [], allowance - phrase.nodes, phrase.tokens.length⟩ := by
  have spans : phrase.Spans Reader.depthLimit ⟨first, behind, allowance, 0⟩
      ⟨last, [], allowance - phrase.nodes, phrase.tokens.length⟩ := by
    refine ⟨⟨tokensEq.symm, ?_, (Nat.zero_add _).symm⟩, shallow, accepted⟩
    change allowance = allowance - phrase.nodes + phrase.nodes
    omega
  have recognizes := (Reader.level_recognizes (α := α) Reader.depthLimit).2
  exact formula_eq_ok_iff.mpr
    ⟨recognizes.complete phrase spans (Rank.ends_finish finishes .sum), finishes⟩

theorem ofTokens?_eq_ok_iff {body : List (Token α)} {last : Token α} {tree : Expr α}
    (goOn : ∀ token ∈ body, token.isFinish = false) (finishes : last.isFinish = true) :
    ofTokens? (body ++ [last]) = .ok tree ↔
      ∃ phrase : Phrase α (.expr .sum), phrase.tokens = body ∧ phrase.meaning = tree ∧
        phrase.CallsAccepted ∧ phrase.nodes ≤ Reader.nodeLimit ∧
          phrase.depth ≤ Reader.depthLimit := by
  obtain ⟨first, behind, tokensEq⟩ : ∃ first behind, body ++ [last] = first :: behind :=
    List.exists_cons_of_ne_nil (List.append_ne_nil_of_right_ne_nil body (List.cons_ne_nil _ _))
  have closed : Closed (Cursor.tokens (⟨first, behind, Reader.nodeLimit, 0⟩ : Cursor α)) := by
    change Closed (first :: behind)
    rw [← tokensEq]
    exact Closed.append_singleton goOn finishes
  rw [tokensEq, ofTokens?_eq_ok_iff_readTokens]
  constructor
  · rintro ⟨cursor, read⟩
    obtain ⟨sumRead, atFinish⟩ := formula_eq_ok_iff.mp read
    have recognizes := (Reader.level_recognizes (α := α) Reader.depthLimit).2
    obtain ⟨phrase, treeEq, spans⟩ := recognizes.sound closed sumRead
    have noneBehind : cursor.behind = [] := (spans.passes.closed closed).eq_nil atFinish
    have allTokens : body ++ [last] = phrase.tokens ++ [cursor.front] := by
      rw [tokensEq, ← noneBehind]
      exact spans.passes.tokens_eq
    have paid : Reader.nodeLimit = cursor.allowance + phrase.nodes := spans.passes.allowance_eq
    exact ⟨phrase, (List.append_inj_left' allTokens rfl).symm, treeEq, spans.accepted, by omega,
      spans.depth_le⟩
  · rintro ⟨phrase, rfl, rfl, accepted, enough, shallow⟩
    exact ⟨_, formula_of_phrase phrase tokensEq finishes accepted shallow enough⟩

end Expr

namespace Phrase

theorem exists_chain_of_three (chain : Chain) (first second third : Phrase α (.expr chain.operand))
    {sign sign' : Token α} {operator operator' : Operator}
    (joins : chain.operator? sign = some operator)
    (joins' : chain.operator? sign' = some operator') :
    ∃ phrase : Phrase α (.expr .sum),
      phrase.tokens = first.tokens ++ sign :: (second.tokens ++ sign' :: third.tokens) ∧
        phrase.meaning =
          .binary operator' (.binary operator first.meaning second.meaning) third.meaning := by
  cases chain with
  | additive =>
    refine ⟨.sum first
      (.link sign operator joins second (.link sign' operator' joins' third .noLink)), ?_, rfl⟩
    simp only [tokens, List.append_nil]
    rfl
  | multiplicative =>
    refine ⟨.sum (.product first
      (.link sign operator joins second (.link sign' operator' joins' third .noLink))) .noLink,
      ?_, rfl⟩
    simp only [tokens, List.append_nil]
    rfl

theorem exists_power_of_power (first second : Phrase α (.expr .operand))
    (third : Phrase α (.expr .unary)) {sign sign' : Token α} (isCaret : sign.symbol? = some '^')
    (isCaret' : sign'.symbol? = some '^') :
    ∃ phrase : Phrase α (.expr .sum),
      phrase.tokens = first.tokens ++ sign :: (second.tokens ++ sign' :: third.tokens) ∧
        phrase.meaning =
          .binary .pow first.meaning (.binary .pow second.meaning third.meaning) := by
  refine ⟨.sum (.product (.unsigned (.raised first sign isCaret
    (.unsigned (.raised second sign' isCaret' third)))) .noLink) .noLink, ?_, rfl⟩
  simp only [tokens, List.append_nil]

theorem eq_of_tokens_eq {first second : Phrase α (.expr .sum)}
    (same : first.tokens = second.tokens) : first = second := by
  have nothingBehind : (Grade.expr .sum).EndsBefore ([] : List (Token α)) := by
    intro token later impossible
    cases impossible
  exact (first.unambiguous second [] [] nothingBehind nothingBehind
    (congrArg (· ++ []) same)).1

end Phrase

/-- Reading accepts exactly the phrases of the grammar with accepted calls, at most as many
operators and operands as the allowance and at most the depth of the levels, and returns the tree
of the phrase. The phrase is the only one of its tokens, its tree has a node for each operator and
each operand that is no group, chains group to the left and powers to the right. -/
theorem reading_accepts_grammar (body : List (Token α)) (last : Token α)
    (goOn : ∀ token ∈ body, token.isFinish = false) (finishes : last.isFinish = true) :
    (∀ tree, Expr.ofTokens? (body ++ [last]) = .ok tree ↔
      ∃ phrase : Phrase α (.expr .sum), phrase.tokens = body ∧ phrase.meaning = tree ∧
        phrase.CallsAccepted ∧ phrase.nodes ≤ Reader.nodeLimit ∧
          phrase.depth ≤ Reader.depthLimit) ∧
    (∀ first second : Phrase α (.expr .sum),
      first.tokens = body → second.tokens = body → first = second) ∧
    (∀ phrase : Phrase α (.expr .sum), phrase.tokens = body →
      phrase.meaning.size + phrase.groups = phrase.nodes) ∧
    (∀ tree, Expr.ofTokens? (body ++ [last]) = .ok tree →
      (∀ (chain : Chain) (first second third : Phrase α (.expr chain.operand))
        (sign sign' : Token α) (operator operator' : Operator),
        chain.operator? sign = some operator → chain.operator? sign' = some operator' →
        body = first.tokens ++ sign :: (second.tokens ++ sign' :: third.tokens) →
          tree =
            .binary operator' (.binary operator first.meaning second.meaning) third.meaning) ∧
      (∀ (first second : Phrase α (.expr .operand)) (third : Phrase α (.expr .unary))
        (sign sign' : Token α), sign.symbol? = some '^' → sign'.symbol? = some '^' →
        body = first.tokens ++ sign :: (second.tokens ++ sign' :: third.tokens) →
          tree = .binary .pow first.meaning (.binary .pow second.meaning third.meaning))) := by
  refine ⟨fun tree => Expr.ofTokens?_eq_ok_iff goOn finishes, ?_, ?_, ?_⟩
  · intro first second firstTokens secondTokens
    exact Phrase.eq_of_tokens_eq (firstTokens.trans secondTokens.symm)
  · intro phrase _
    exact phrase.accounted
  · intro tree read
    obtain ⟨phrase, phraseTokens, rfl, _⟩ := (Expr.ofTokens?_eq_ok_iff goOn finishes).mp read
    constructor
    · intro chain first second third sign sign' operator operator' joins joins' bodyEq
      obtain ⟨grouped, groupedTokens, groupedTree⟩ :=
        Phrase.exists_chain_of_three chain first second third joins joins'
      have same : phrase = grouped :=
        Phrase.eq_of_tokens_eq (phraseTokens.trans (bodyEq.trans groupedTokens.symm))
      rw [same, groupedTree]
    · intro first second third sign sign' isCaret isCaret' bodyEq
      obtain ⟨grouped, groupedTokens, groupedTree⟩ :=
        Phrase.exists_power_of_power first second third isCaret isCaret'
      have same : phrase = grouped :=
        Phrase.eq_of_tokens_eq (phraseTokens.trans (bodyEq.trans groupedTokens.symm))
      rw [same, groupedTree]

def differenceTokens : List (Token Binary64) :=
  [⟨.number (.ofNat 2), "2", 0⟩, ⟨.operator '-', "-", 2⟩, ⟨.operator '-', "-", 4⟩,
    ⟨.name, "x", 5⟩, ⟨.operator '^', "^", 6⟩, ⟨.number (.ofNat 3), "3", 7⟩]

/-- In `2 - -x^3` the second minus is a sign, and it reaches over the power. -/
theorem reading_accepts_difference :
    (∀ token ∈ differenceTokens, token.isFinish = false) ∧
      (⟨.finish, "", 8⟩ : Token Binary64).isFinish = true ∧
      Expr.ofTokens? (differenceTokens ++ [(⟨.finish, "", 8⟩ : Token Binary64)]) =
        .ok (.binary .sub (.number (.ofNat 2))
          (.neg (.binary .pow .var (.number (.ofNat 3))))) := by
  have goOn : ∀ token ∈ differenceTokens, token.isFinish = false := by
    intro token member
    simp only [differenceTokens, List.mem_cons, List.not_mem_nil, or_false] at member
    rcases member with rfl | rfl | rfl | rfl | rfl | rfl <;> rfl
  have finishes : (⟨.finish, "", 8⟩ : Token Binary64).isFinish = true := rfl
  refine ⟨goOn, finishes, ?_⟩
  have accepts := (reading_accepts_grammar differenceTokens ⟨.finish, "", 8⟩ goOn finishes).1
  let negative : Phrase Binary64 (.expr .unary) :=
    .minus ⟨.operator '-', "-", 4⟩ rfl (.unsigned (.raised (.var ⟨.name, "x", 5⟩ rfl rfl)
      ⟨.operator '^', "^", 6⟩ rfl
        (.unsigned (.unraised (.number ⟨.number (.ofNat 3), "3", 7⟩ (.ofNat 3) rfl)))))
  let two : Phrase Binary64 (.expr .unary) :=
    .unsigned (.unraised (.number ⟨.number (.ofNat 2), "2", 0⟩ (.ofNat 2) rfl))
  refine (accepts _).mpr ⟨.sum (.product two .noLink)
    (.link ⟨.operator '-', "-", 2⟩ .sub rfl (.product negative .noLink) .noLink),
    rfl, rfl, ?_, ?_, ?_⟩
  · simp only [Phrase.CallsAccepted, negative, two, and_self]
  · decide
  · decide

end Tangency
