/-
What each reader of formulas comes to.

A reader of a rank stops at a token that continues no phrase of the rank, or refuses the
tokens for a reason.  Each reader does so as soon as those it is built from do, so this
climbs the levels as recognition does.  That a reader finds the right phrase is used for
the tokens that it passed before it failed.
-/

import Tangency.Proofs.Refusal

namespace Tangency

variable {α : Type} [Numeral α]

open Expectation

namespace Reader

def Explains (rank : Rank) (reader : Reader α (Expr α)) : Prop :=
  ∀ cursor : Cursor α, Closed cursor.tokens →
    (Grade.expr rank).Settles cursor.tokens (reader cursor)

section Steps

omit [Numeral α]

theorem bind_cases {β γ : Type} {first : Reader α β} {later : β → Reader α γ} {cursor : Cursor α}
    {outcome : EStateM.Result (Failure α) (Cursor α) γ → Prop}
    (failed : ∀ failure last, first cursor = .error failure last → outcome (.error failure last))
    (passed : ∀ middle between, first cursor = .ok middle between →
      outcome (later middle between)) :
    outcome ((first >>= later) cursor) := by
  change outcome (EStateM.bind first later cursor)
  unfold EStateM.bind
  cases firstEq : first cursor with
  | ok middle between => exact passed middle between firstEq
  | error failure last => exact failed failure last firstEq

theorem bind_eq_error {β γ : Type} {first : Reader α β} {later : β → Reader α γ}
    {cursor last : Cursor α} {failure : Failure α}
    (failed : (first >>= later) cursor = .error failure last) :
    first cursor = .error failure last ∨
      ∃ middle between, first cursor = .ok middle between ∧
        later middle between = .error failure last := by
  change EStateM.bind first later cursor = .error failure last at failed
  unfold EStateM.bind at failed
  cases firstEq : first cursor with
  | ok middle between =>
    rw [firstEq] at failed
    exact .inr ⟨middle, between, rfl, failed⟩
  | error other elsewhere =>
    rw [firstEq] at failed
    cases failed
    exact .inl rfl

theorem isLimit_of_payAndTake {cursor last : Cursor α} {failure : Failure α}
    (failed : payAndTake cursor = .error failure last) : failure.IsLimit := by
  change EStateM.bind pay (fun _ => take) cursor = .error failure last at failed
  unfold EStateM.bind pay at failed
  cases allowanceEq : cursor.allowance with
  | zero =>
    simp only [allowanceEq] at failed
    cases failed
    exact .inr rfl
  | succ left =>
    simp only [allowanceEq] at failed
    cases failed

theorem takeClosing_eq_error {cursor last : Cursor α} {failure : Failure α}
    (failed : takeClosing cursor = .error failure last) :
    cursor.front.kind ≠ .closing ∧
      failure = .malformed cursor.front.position (.closingMissing cursor.front.found) := by
  rw [takeClosing, front_bind] at failed
  cases kindEq : cursor.front.kind with
  | closing =>
    simp only [kindEq] at failed
    cases failed
  | _ =>
    simp only [kindEq] at failed
    cases failed
    refine ⟨?_, rfl⟩
    intro closes
    cases closes

end Steps

/-- A reader that pays for its first token fails for want of an allowance, or comes to what it comes
to behind the token. -/
theorem settles_payAndTake {β : Type} {grade : Grade} {tokens : List (Token α)}
    {later : Token α → Reader α β} {cursor : Cursor α} (closed : Closed cursor.tokens)
    (passed : ∀ between, (cursor.front.isFinish = false → cursor.Passes between [cursor.front] 1) →
      grade.Settles tokens (later cursor.front between)) :
    grade.Settles tokens ((payAndTake >>= later) cursor) := by
  refine bind_cases ?_ ?_
  · intro failure last failed
    exact .limit (isLimit_of_payAndTake failed)
  · intro token between read
    rcases payAndTake_sound closed read with ⟨rfl, passes⟩
    exact passed between passes

theorem settles_bind_pure {β γ : Type} {grade : Grade} {tokens : List (Token α)}
    {first : Reader α β} {cursor : Cursor α} (settles : grade.Settles tokens (first cursor))
    (finished : β → γ) :
    grade.Settles tokens ((first >>= fun found => pure (finished found)) cursor) := by
  refine bind_cases ?_ ?_
  · intro failure last failed
    rw [failed] at settles
    exact settles
  · intro found last read
    rw [read] at settles
    exact settles

section Chains

variable {chain : Chain} {limit : Nat} {reader : Reader α (Expr α)}

/-- Each round pays for its operator, so a chain ends where it ends and not for want of rounds. -/
theorem chainFrom_settles (operand : Recognizes chain.operand limit reader)
    (explains : Explains chain.operand reader) (rounds : Nat) :
    ∀ (cursor : Cursor α) (left : Expr α), cursor.allowance < rounds → Closed cursor.tokens →
      chain.operand.Stops cursor.front →
        (Grade.links chain).Settles cursor.tokens
          (chainFrom chain.operator? reader rounds left cursor) := by
  induction rounds with
  | zero =>
    intro cursor left enough
    omega
  | succ rounds ih =>
    intro cursor left enough closed stops
    rw [chainFrom, front_bind]
    cases joins : chain.operator? cursor.front with
    | none => exact ⟨stops, joins⟩
    | some operator =>
      refine settles_payAndTake closed ?_
      intro afterSign signPassed
      have signPasses := signPassed (isFinish_of_joins joins)
      have closedRight := signPasses.closed closed
      have rightSettles := explains afterSign closedRight
      refine bind_cases ?_ ?_
      · intro failure last failed
        rw [failed] at rightSettles
        rw [signPasses.tokens_eq]
        refine Refused.behind [cursor.front] rightSettles ?_ ?_
        · intro right
          exact ⟨.link cursor.front operator joins right .noLink, List.prefix_append _ []⟩
        · rintro counted _ ⟨around, rfl⟩
          exact ⟨_, ⟨around, rfl⟩, follow_singleton (step_joins joins)⟩
      · intro rightTree afterRight rightRead
        rcases operand.sound closedRight rightRead with ⟨right, rfl, rightSpans⟩
        rw [rightRead] at rightSettles
        -- The sign was paid for, so one round less suffices behind the right operand.
        have paid := signPasses.allowance_eq
        have rightPaid := rightSpans.passes.allowance_eq
        have laterSettles := ih afterRight (.binary operator left right.meaning) (by omega)
          (rightSpans.passes.closed closedRight) rightSettles
        rw [(signPasses.trans rightSpans.passes).tokens_eq]
        refine laterSettles.behind _ (fun _ ends => ends) ?_ ?_
        · intro later
          exact ⟨.link cursor.front operator joins right later, List.prefix_rfl⟩
        · rintro counted _ ⟨around, rfl⟩
          refine ⟨_, ⟨around, rfl⟩, (follow_cons (step_joins joins)).trans ?_⟩
          exact right.followed (fun _ => rightSpans.accepted) around

theorem chain_settles (chain : Chain) (operand : Recognizes chain.operand limit reader)
    (explains : Explains chain.operand reader) {rank : Rank} {cursor : Cursor α}
    (closed : Closed cursor.tokens)
    (form : Phrase α (.expr chain.operand) → Phrase α (.links chain) → Phrase α (.expr rank))
    (formTokens : ∀ first links, (form first links).tokens = first.tokens ++ links.tokens)
    (stops : ∀ token : Token α, (Grade.links chain).Stops token → rank.Stops token) :
    (Grade.expr rank).Settles cursor.tokens (Reader.chain chain.operator? reader cursor) := by
  have firstSettles := explains cursor closed
  refine bind_cases ?_ ?_
  · intro failure last failed
    rw [failed] at firstSettles
    refine Refused.widened firstSettles ?_
    intro first
    refine ⟨form first .noLink, ?_⟩
    rw [formTokens]
    exact List.prefix_append first.tokens []
  · intro firstTree between firstRead
    rcases operand.sound closed firstRead with ⟨first, rfl, firstSpans⟩
    rw [firstRead] at firstSettles
    rw [allowance_bind, firstSpans.passes.tokens_eq]
    have linksSettles := chainFrom_settles operand explains (between.allowance + 1) between
      first.meaning (Nat.lt_succ_self _) (firstSpans.passes.closed closed) firstSettles
    refine linksSettles.behind _ stops ?_ ?_
    · intro links
      refine ⟨form first links, ?_⟩
      simp only [formTokens, List.prefix_rfl]
    · rintro counted _ ⟨around, rfl⟩
      exact ⟨_, ⟨around, rfl⟩, first.followed (fun _ => firstSpans.accepted) around⟩

end Chains

theorem product_explains {limit : Nat} {reader : Reader α (Expr α)}
    (unary : Recognizes .unary limit reader) (explains : Explains .unary reader) :
    Explains .product (chain multiplicative? reader) := by
  intro cursor closed
  exact chain_settles .multiplicative unary explains closed .product
    (fun _ _ => rfl) (fun _ stops => stops)

theorem sum_explains {limit : Nat} {reader : Reader α (Expr α)}
    (product : Recognizes .product limit reader) (explains : Explains .product reader) :
    Explains .sum (chain additive? reader) := by
  intro cursor closed
  exact chain_settles .additive product explains closed .sum
    (fun _ _ => rfl) (fun _ stops => stops)

section Arguments

variable {limit : Nat} {reader : Reader α (Expr α)}

theorem laterArguments_settles (argument : Recognizes .sum limit reader)
    (explains : Explains .sum reader) (rounds : Nat) :
    ∀ cursor : Cursor α, cursor.allowance < rounds → Closed cursor.tokens →
      Rank.sum.Stops cursor.front →
        Grade.arguments.Settles cursor.tokens (laterArguments reader rounds cursor) := by
  induction rounds with
  | zero =>
    intro cursor enough
    omega
  | succ rounds ih =>
    intro cursor enough closed stops
    by_cases separates : cursor.front.kind = .comma
    · rw [laterArguments_comma separates]
      have commaPasses := Cursor.passes_advanced closed (isFinish_of_kind separates (by simp))
      have closedNext := commaPasses.closed closed
      have nextSettles := explains cursor.advanced closedNext
      rw [bind_of_ok (show take cursor = .ok cursor.front cursor.advanced from rfl),
        commaPasses.tokens_eq]
      refine bind_cases ?_ ?_
      · intro failure last failed
        rw [failed] at nextSettles
        refine Refused.behind [cursor.front] nextSettles ?_ ?_
        · intro next
          exact ⟨.argument cursor.front separates next .noArgument, List.prefix_append _ []⟩
        · rintro counted _ ⟨function, earlier, around, rfl⟩
          exact ⟨_, ⟨_, rfl⟩, follow_singleton (step_comma separates)⟩
      · intro nextTree afterNext nextRead
        rcases argument.sound closedNext nextRead with ⟨next, rfl, nextSpans⟩
        rw [nextRead] at nextSettles
        have paid := commaPasses.allowance_eq
        have nextPaid := nextSpans.passes.allowance_eq
        have nextPos := next.nodes_pos
        have closedLater := nextSpans.passes.closed closedNext
        have laterSettles := ih afterNext (by omega) closedLater nextSettles
        rw [nextSpans.passes.tokens_eq, ← List.append_assoc]
        refine settles_bind_pure (laterSettles.behind _ (fun _ ends => ends) ?_ ?_) _
        · intro later
          exact ⟨.argument cursor.front separates next later, List.prefix_rfl⟩
        · rintro counted _ ⟨function, earlier, around, rfl⟩
          refine ⟨_, ⟨function, earlier + 1, around, rfl⟩, ?_⟩
          refine (follow_cons (step_comma separates)).trans ?_
          exact next.followed (fun _ => nextSpans.accepted) _
    · rw [laterArguments_other separates]
      exact ⟨stops, separates⟩

/-- What the arguments of a call come to: the last stops where no other follows, or the first is
refused, or what is behind it. -/
def ArgumentsSettle (limit : Nat) (cursor : Cursor α) :
    EStateM.Result (Failure α) (Cursor α) (List (Expr α)) → Prop
  | .ok _ last => Grade.arguments.Stops last.front
  | .error failure _ => Refused (.expr .sum) cursor.tokens failure ∨
      ∃ (first : Phrase α (.expr .sum)) (between : Cursor α),
        first.Spans limit cursor between ∧ Refused .arguments between.tokens failure

theorem arguments_settle (argument : Recognizes .sum limit reader)
    (explains : Explains .sum reader) {cursor : Cursor α} (closed : Closed cursor.tokens) :
    ArgumentsSettle limit cursor (arguments reader cursor) := by
  have firstSettles := explains cursor closed
  refine bind_cases ?_ ?_
  · intro failure last failed
    rw [failed] at firstSettles
    exact .inl firstSettles
  · intro firstTree between firstRead
    rcases argument.sound closed firstRead with ⟨first, rfl, firstSpans⟩
    rw [firstRead] at firstSettles
    have laterSettles := laterArguments_settles argument explains (between.allowance + 1) between
      (Nat.lt_succ_self _) (firstSpans.passes.closed closed) firstSettles
    rw [allowance_bind]
    refine bind_cases ?_ ?_
    · intro failure last failed
      rw [failed] at laterSettles
      exact .inr ⟨first, between, firstSpans, laterSettles⟩
    · intro laterTrees last laterRead
      rw [laterRead] at laterSettles
      exact laterSettles

end Arguments

/-! ### Calls -/

section Calls

variable {limit : Nat} {reader : Reader α (Expr α)} {cursor last : Cursor α}
  {name opening : Token α} {function : Elementary} {failure : Failure α}

omit [Numeral α] in
def closingParenthesis : Token α := ⟨.closing, ")", 0⟩

theorem follow_callOpening {counted : Bool} {around : List Enclosure} (isName : name.kind = .name)
    (isFunction : Elementary.ofName? name.text = some function) (opens : opening.kind = .opening) :
    follow counted [name, opening] (.operand around) =
      some (.operand (.call function 0 :: around)) := by
  rw [follow_cons ((step_name isName).trans (afterName_function isFunction))]
  exact follow_singleton (step_call opens)

theorem follow_callArguments (isName : name.kind = .name)
    (isFunction : Elementary.ofName? name.text = some function) (opens : opening.kind = .opening)
    {first : Phrase α (.expr .sum)} {later : Phrase α .arguments}
    (firstAccepted : first.CallsAccepted) (laterAccepted : later.CallsAccepted) (counted : Bool)
    (around : List Enclosure) :
    follow counted (name :: opening :: (first.tokens ++ later.tokens)) (.operand around) =
      some (.operator (.call function later.meaning.length :: around)) := by
  have tokensEq : name :: opening :: (first.tokens ++ later.tokens) =
      [name, opening] ++ (first.tokens ++ later.tokens) := rfl
  have allCounted : follow counted later.tokens (.operator (.call function 0 :: around)) =
      some (.operator (.call function (0 + later.meaning.length) :: around)) :=
    later.followed (fun _ => laterAccepted) function 0 around
  rw [tokensEq, follow_append (follow_callOpening isName isFunction opens),
    follow_append (first.followed (fun _ => firstAccepted) _), allCounted, Nat.zero_add]

theorem callArguments_begin (isName : name.kind = .name)
    (isFunction : Elementary.ofName? name.text = some function) (opens : opening.kind = .opening)
    (first : Phrase α (.expr .sum)) (later : Phrase α .arguments) :
    ∃ whole : Phrase α (.expr .operand),
      name :: opening :: (first.tokens ++ later.tokens) <+: whole.tokens := by
  refine ⟨.call name isName function isFunction opening opens first later closingParenthesis rfl,
    [closingParenthesis], ?_⟩
  simp only [Phrase.tokens, List.cons_append, List.append_assoc]

theorem unknownFunction_refused (isName : name.kind = .name)
    (opens : cursor.front.kind = .opening) (notVariable : name.text ≠ Expr.variableName)
    (unknown : Elementary.ofName? name.text = none) :
    Refused (.expr .operand) (name :: cursor.tokens) (.unknownFunction name.text) := by
  refine .unnamed rfl ?_
  rintro _ ⟨around, rfl⟩
  by_cases isConstant : (Numeral.constant? (α := α) name.text).isSome
  · rw [follow_cons ((step_name isName).trans (if_pos (.inr isConstant)))]
    refine follow_cons_eq_none ?_
    cases around <;> simp only [step, opens, afterArgument]
  · refine follow_cons_eq_none ((step_name isName).trans ?_)
    rw [afterName, if_neg (not_or.mpr ⟨notVariable, isConstant⟩), unknown]
    rfl

theorem callArguments_refused (isName : name.kind = .name)
    (isFunction : Elementary.ofName? name.text = some function) (opens : opening.kind = .opening)
    (settles : ArgumentsSettle limit cursor (.error failure last)) :
    Refused (.expr .operand) (name :: opening :: cursor.tokens) failure := by
  rcases settles with firstRefused | ⟨first, between, firstSpans, laterRefused⟩
  · refine Refused.behind [name, opening] firstRefused ?_ ?_
    · intro first
      have begin := callArguments_begin isName isFunction opens first .noArgument
      rw [Phrase.tokens, List.append_nil] at begin
      exact begin
    · rintro counted _ ⟨around, rfl⟩
      exact ⟨_, ⟨_, rfl⟩, follow_callOpening isName isFunction opens⟩
  · rw [firstSpans.passes.tokens_eq]
    refine Refused.behind (name :: opening :: first.tokens) laterRefused ?_ ?_
    · intro later
      exact callArguments_begin isName isFunction opens first later
    · rintro counted _ ⟨around, rfl⟩
      refine ⟨_, ⟨function, 0, around, rfl⟩, ?_⟩
      refine (follow_append (follow_callOpening isName isFunction opens)).trans ?_
      exact first.followed (fun _ => firstSpans.accepted) _

theorem callClosing_settles (isName : name.kind = .name)
    (isFunction : Elementary.ofName? name.text = some function) (opens : opening.kind = .opening)
    {first : Phrase α (.expr .sum)} {later : Phrase α .arguments}
    (firstAccepted : first.CallsAccepted) (laterAccepted : later.CallsAccepted)
    (closed : Closed cursor.tokens) (stops : Grade.arguments.Stops cursor.front) :
    (Grade.expr .operand).Settles
      ((name :: opening :: (first.tokens ++ later.tokens)) ++ cursor.tokens)
      ((do
        takeClosing
        if function.acceptsCount (first.meaning :: later.meaning).length then
          return .call function (first.meaning :: later.meaning)
        else failAt name (.wrongCount function (first.meaning :: later.meaning).length) :
          Reader α (Expr α)) cursor) := by
  have inside :=
    follow_callArguments isName isFunction opens firstAccepted laterAccepted
  refine bind_cases ?_ ?_
  · intro failure last failed
    rcases takeClosing_eq_error failed with ⟨noClosing, rfl⟩
    refine .misplaced _ cursor.behind cursor.front rfl rfl ?_ ?_
    · exact callArguments_begin isName isFunction opens first later
    · rintro _ ⟨around, rfl⟩
      rw [follow_append (inside false around)]
      refine follow_cons_eq_none ?_
      rw [step_of_stops stops.1 (.inl (List.cons_ne_nil _ _))]
      exact afterArgument_call noClosing stops.2
  · intro _ afterClosing closingRead
    rcases takeClosing_sound closed closingRead with ⟨closing, closes, closingPasses⟩
    by_cases accepts : function.acceptsCount (first.meaning :: later.meaning).length
    · rw [if_pos accepts]
      exact trivial
    · rw [if_neg accepts, closingPasses.tokens_eq]
      refine .unnamed rfl ?_
      rintro _ ⟨around, rfl⟩
      rw [follow_append (inside true around)]
      exact follow_cons_eq_none
        (step_closing_call_eq_none closes (Bool.eq_false_iff.mpr accepts))

theorem call_settles (inner : Recognizes .sum limit reader) (explains : Explains .sum reader)
    (closed : Closed cursor.tokens) (isName : name.kind = .name)
    (opens : cursor.front.kind = .opening) (notVariable : name.text ≠ Expr.variableName) :
    (Grade.expr .operand).Settles (name :: cursor.tokens) (call reader name cursor) := by
  unfold call
  cases isFunction : Elementary.ofName? name.text with
  | none => exact unknownFunction_refused isName opens notVariable isFunction
  | some function =>
    have openingPasses := Cursor.passes_advanced closed (isFinish_of_kind opens (by simp))
    have closedFirst := openingPasses.closed closed
    have settle := arguments_settle inner explains closedFirst
    simp only
    rw [bind_of_ok (show take cursor = .ok cursor.front cursor.advanced from rfl),
      openingPasses.tokens_eq]
    refine bind_cases ?_ ?_
    · intro failure last failed
      rw [failed] at settle
      exact callArguments_refused isName isFunction opens settle
    · intro given afterGiven givenRead
      rw [givenRead] at settle
      rcases arguments_sound inner closedFirst givenRead with
        ⟨first, later, between, rfl, firstSpans, laterSpans⟩
      have closedGiven := laterSpans.passes.closed (firstSpans.passes.closed closedFirst)
      rw [(firstSpans.passes.trans laterSpans.passes).tokens_eq]
      exact callClosing_settles isName isFunction opens firstSpans.accepted laterSpans.accepted
        closedGiven settle

end Calls

section Operands

variable {limit : Nat} {reader : Reader α (Expr α)}

theorem bareName_settles {cursor : Cursor α} {name : Token α} (isName : name.kind = .name)
    (noOpening : cursor.front.kind ≠ .opening) (notVariable : name.text ≠ Expr.variableName) :
    (Grade.expr .operand).Settles (name :: cursor.tokens) (bareName name cursor) := by
  unfold bareName
  cases isConstant : Numeral.constant? (α := α) name.text with
  | some literal => exact trivial
  | none =>
    have noOperand : ¬(name.text = Expr.variableName ∨
        (Numeral.constant? (α := α) name.text).isSome) := by
      simp only [isConstant, notVariable, Option.isSome_none, Bool.false_eq_true, or_false,
        not_false_eq_true]
    cases isFunction : Elementary.ofName? name.text with
    | some function =>
      simp only [Option.isSome_some, if_true]
      refine .unnamed rfl ?_
      rintro _ ⟨around, rfl⟩
      have awaits : step true (.operand around) name = some (.opening function around) :=
        (step_name isName).trans (afterName_function isFunction)
      rw [follow_cons awaits]
      refine follow_cons_eq_none ?_
      cases kindEq : cursor.front.kind with
      | opening => exact absurd kindEq noOpening
      | _ => simp only [step, kindEq]
    | none =>
      simp only [Option.isSome_none, Bool.false_eq_true, if_false]
      refine .unnamed rfl ?_
      rintro _ ⟨around, rfl⟩
      refine follow_cons_eq_none ((step_name isName).trans ?_)
      rw [afterName, if_neg noOperand, isFunction]
      rfl

theorem named_settles (inner : Recognizes .sum limit reader) (explains : Explains .sum reader)
    {cursor : Cursor α} {name : Token α} (closed : Closed cursor.tokens)
    (isName : name.kind = .name) :
    (Grade.expr .operand).Settles (name :: cursor.tokens) (named reader name cursor) := by
  rw [named, front_bind]
  by_cases isVariable : (name.text == Expr.variableName) = true
  · rw [if_pos isVariable]
    exact trivial
  · rw [if_neg isVariable]
    have notVariable : name.text ≠ Expr.variableName := fun same => isVariable (beq_iff_eq.mpr same)
    cases kindEq : cursor.front.kind with
    | opening => exact call_settles inner explains closed isName kindEq notVariable
    | _ => exact bareName_settles isName (by simp [kindEq]) notVariable

theorem group_settles (inner : Recognizes .sum limit reader) (explains : Explains .sum reader)
    {cursor : Cursor α} {opening : Token α} (closed : Closed cursor.tokens)
    (opens : opening.kind = .opening) :
    (Grade.expr .operand).Settles (opening :: cursor.tokens)
      ((do
        let group ← reader
        takeClosing
        return group : Reader α (Expr α)) cursor) := by
  have groupSettles := explains cursor closed
  refine bind_cases ?_ ?_
  · intro failure last failed
    rw [failed] at groupSettles
    refine Refused.behind [opening] groupSettles ?_ ?_
    · intro group
      exact ⟨.group opening opens group closingParenthesis rfl, [closingParenthesis], rfl⟩
    · rintro counted _ ⟨around, rfl⟩
      exact ⟨_, ⟨_, rfl⟩, follow_singleton (step_opening opens)⟩
  · intro groupTree afterGroup groupRead
    rcases inner.sound closed groupRead with ⟨group, rfl, groupSpans⟩
    rw [groupRead] at groupSettles
    refine settles_bind_pure ?_ (fun _ => group.meaning)
    rw [groupSpans.passes.tokens_eq]
    cases closingRead : takeClosing afterGroup with
    | ok _ last => exact trivial
    | error failure last =>
      rcases takeClosing_eq_error closingRead with ⟨noClosing, rfl⟩
      refine .misplaced (opening :: group.tokens) afterGroup.behind afterGroup.front rfl rfl ?_ ?_
      · exact ⟨.group opening opens group closingParenthesis rfl, [closingParenthesis], rfl⟩
      · rintro _ ⟨around, rfl⟩
        rw [List.cons_append, follow_cons (step_opening opens),
          follow_append (group.followed (fun _ => groupSpans.accepted) _)]
        refine follow_cons_eq_none ?_
        rw [step_of_stops groupSettles (.inl (List.cons_ne_nil _ _))]
        exact afterArgument_group noClosing

/-- A minus does not reach the reader of operands, which would report it although it may stand
there. -/
theorem operand_settles (inner : Recognizes .sum limit reader) (explains : Explains .sum reader)
    {cursor : Cursor α} (closed : Closed cursor.tokens)
    (noMinus : cursor.front.symbol? ≠ some '-') :
    (Grade.expr .operand).Settles cursor.tokens (operand reader cursor) := by
  refine settles_payAndTake closed ?_
  intro afterToken passed
  have misplaced : (∀ counted around, step counted (.operand around) cursor.front = none) →
      (Grade.expr .operand).Settles cursor.tokens
        (failAt cursor.front (.operandMissing cursor.front.found) afterToken :
          EStateM.Result (Failure α) (Cursor α) (Expr α)) := by
    intro impossible
    refine .misplaced [] cursor.behind cursor.front rfl rfl ?_ ?_
    · exact ⟨.var ⟨.name, Expr.variableName, 0⟩ rfl rfl, List.nil_prefix⟩
    · rintro _ ⟨around, rfl⟩
      exact follow_cons_eq_none (impossible false around)
  cases kindEq : cursor.front.kind with
  | number literal => exact trivial
  | name =>
    have tokenPasses := passed (isFinish_of_kind kindEq (by simp))
    rw [tokenPasses.tokens_eq]
    exact named_settles inner explains (tokenPasses.closed closed) kindEq
  | opening =>
    have tokenPasses := passed (isFinish_of_kind kindEq (by simp))
    rw [tokenPasses.tokens_eq]
    exact group_settles inner explains (tokenPasses.closed closed) kindEq
  | operator symbol =>
    refine misplaced ?_
    intro counted around
    have isSymbol := (Token.symbol?_eq_some_iff cursor.front symbol).mpr kindEq
    rw [isSymbol] at noMinus
    have other : symbol ≠ '-' := fun same => noMinus (congrArg some same)
    simp only [step, kindEq, if_neg other]
  | _ => exact misplaced fun counted around => by simp only [step, kindEq]

end Operands

section Levels

variable {limit : Nat} {inner : Level α}

theorem power_settles (sum : Recognizes .sum limit inner.sum)
    (explainsUnary : Explains .unary inner.unary) (explainsSum : Explains .sum inner.sum)
    {cursor : Cursor α} (closed : Closed cursor.tokens)
    (noMinus : cursor.front.symbol? ≠ some '-') :
    (Grade.expr .power).Settles cursor.tokens (Reader.power inner cursor) := by
  have baseSettles := operand_settles sum explainsSum closed noMinus
  refine bind_cases ?_ ?_
  · intro failure last failed
    rw [failed] at baseSettles
    refine Refused.widened baseSettles ?_
    intro base
    exact ⟨.unraised base, List.prefix_rfl⟩
  · intro baseTree afterBase baseRead
    rcases (operand_recognizes sum).sound closed baseRead with ⟨base, rfl, baseSpans⟩
    have closedBase := baseSpans.passes.closed closed
    rw [front_bind]
    by_cases isCaret : afterBase.front.symbol? = some '^'
    · simp only [isCaret]
      refine settles_payAndTake closedBase ?_
      intro afterSign signPassed
      have isSign := (Token.symbol?_eq_some_iff _ _).mp isCaret
      have signPasses := signPassed (isFinish_of_kind isSign (by simp))
      have exponentSettles := explainsUnary afterSign (signPasses.closed closedBase)
      rw [(baseSpans.passes.trans signPasses).tokens_eq]
      refine settles_bind_pure (show (Grade.expr .power).Settles _ _ from
        exponentSettles.behind _ (fun _ ends => ends) ?_ ?_) _
      · intro exponent
        refine ⟨.raised base afterBase.front isCaret exponent, ?_⟩
        simp only [Phrase.tokens, List.append_assoc]
        exact List.prefix_rfl
      · rintro counted _ ⟨around, rfl⟩
        refine ⟨_, ⟨around, rfl⟩, ?_⟩
        rw [follow_append (base.followed (fun _ => baseSpans.accepted) around)]
        exact follow_singleton (step_symbol isCaret rfl)
    · simp only
      exact isCaret

theorem unary_explains (sum : Recognizes .sum limit inner.sum)
    (explainsUnary : Explains .unary inner.unary) (explainsSum : Explains .sum inner.sum) :
    Explains .unary (Reader.unary inner) := by
  intro cursor closed
  rw [Reader.unary, front_bind]
  by_cases isMinus : cursor.front.symbol? = some '-'
  · simp only [isMinus]
    refine settles_payAndTake closed ?_
    intro afterSign signPassed
    have isSign := (Token.symbol?_eq_some_iff _ _).mp isMinus
    have signPasses := signPassed (isFinish_of_kind isSign (by simp))
    have negatedSettles := explainsUnary afterSign (signPasses.closed closed)
    rw [signPasses.tokens_eq]
    refine settles_bind_pure (negatedSettles.behind _ (fun _ ends => ends) ?_ ?_) _
    · intro negated
      exact ⟨.minus cursor.front isMinus negated, List.prefix_rfl⟩
    · rintro counted _ ⟨around, rfl⟩
      exact ⟨_, ⟨around, rfl⟩, follow_singleton (step_minus isMinus)⟩
  · simp only
    have powerSettles := power_settles sum explainsUnary explainsSum closed isMinus
    refine powerSettles.behind [] (fun _ ends => ends) ?_ ?_
    · intro power
      exact ⟨.unsigned power, List.prefix_rfl⟩
    · intro counted place begins
      exact ⟨place, begins, follow_nil⟩

end Levels

theorem level_explains (limit : Nat) :
    Explains (α := α) .unary (level limit).unary ∧ Explains (α := α) .sum (level limit).sum := by
  induction limit with
  | zero =>
    constructor
    · intro cursor closed
      exact .limit (.inl rfl)
    · intro cursor closed
      exact .limit (.inl rfl)
  | succ limit ih =>
    have recognized := level_recognizes (α := α) limit
    have recognizedUnary := unary_recognizes recognized.1 recognized.2
    have unary := unary_explains recognized.2 ih.1 ih.2
    have product := product_explains recognizedUnary unary
    exact ⟨unary, sum_explains (product_recognizes recognizedUnary) product⟩

end Reader

end Tangency
