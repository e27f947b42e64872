/-
Each reader of formulas recognises its rule of the grammar.

A reader recognises a rank if it returns just the trees of the phrases that it
passes, and if it returns the tree of every phrase within its depth that is paid for
and that ends where it stands.  Each reader recognises its rank as soon as those it
is built from recognise theirs, so recognition climbs the levels.

Which failure a reader reports where it recognises nothing is not treated here.
-/

import Tangency.Proofs.CursorSteps
import Tangency.Proofs.GrammarUnique

namespace Tangency

variable {α : Type} [Numeral α]

namespace Phrase

theorem depth_pos {rank : Rank} (phrase : Phrase α (.expr rank)) : 0 < phrase.depth := by
  generalize sameGrade : Grade.expr rank = grade at phrase
  induction phrase generalizing rank with
  | sum first later ihFirst ihLater =>
    have firstPos := ihFirst rfl
    simp only [depth]
    omega
  | product first later ihFirst ihLater =>
    have firstPos := ihFirst rfl
    simp only [depth]
    omega
  | unsigned power ih => exact ih rfl
  | unraised operand ih => exact ih rfl
  | noLink => cases sameGrade
  | link => cases sameGrade
  | noArgument => cases sameGrade
  | argument => cases sameGrade
  | minus => simp only [depth]; omega
  | raised => simp only [depth]; omega
  | number => exact Nat.one_pos
  | var => exact Nat.one_pos
  | constant => exact Nat.one_pos
  | group => simp only [depth]; omega
  | call => simp only [depth]; omega

/-- A phrase leads from one cursor to another, no deeper than a limit. -/
structure Spans {grade : Grade} (phrase : Phrase α grade) (limit : Nat)
    (cursor last : Cursor α) : Prop where
  passes : cursor.Passes last phrase.tokens phrase.nodes
  depth_le : phrase.depth ≤ limit
  accepted : phrase.CallsAccepted

end Phrase

/-- The reader finds the phrases of a rank down to a depth, and nothing else. -/
structure Recognizes (rank : Rank) (limit : Nat) (reader : Reader α (Expr α)) : Prop where
  sound : ∀ {cursor last : Cursor α} {tree : Expr α}, Closed cursor.tokens →
    reader cursor = .ok tree last →
      ∃ phrase : Phrase α (.expr rank), phrase.meaning = tree ∧ phrase.Spans limit cursor last
  complete : ∀ {cursor last : Cursor α} (phrase : Phrase α (.expr rank)),
    phrase.Spans limit cursor last → rank.Ends last.front →
      reader cursor = .ok phrase.meaning last

namespace Reader

section Chains

variable {chain : Chain} {limit : Nat} {reader : Reader α (Expr α)}

omit [Numeral α] in
theorem isFinish_of_joins {sign : Token α} {operator : Operator}
    (joins : chain.operator? sign = some operator) : sign.isFinish = false := by
  cases finishes : sign.isFinish with
  | false => rfl
  | true =>
    have ends := Rank.ends_finish finishes .sum
    cases chain with
    | additive => cases joins.symm.trans ends.2
    | multiplicative => cases joins.symm.trans ends.1.2

theorem chainFrom_sound (operand : Recognizes chain.operand limit reader) (rounds : Nat) :
    ∀ {cursor last : Cursor α} {left tree : Expr α}, Closed cursor.tokens →
      chainFrom chain.operator? reader rounds left cursor = .ok tree last →
        ∃ links : Phrase α (.links chain), links.meaning left = tree ∧
          links.Spans limit cursor last := by
  induction rounds with
  | zero =>
    intro cursor last left tree closed read
    cases read
    exact ⟨.noLink, rfl, .refl cursor, Nat.zero_le limit, trivial⟩
  | succ rounds ih =>
    intro cursor last left tree closed read
    rw [chainFrom, front_bind] at read
    cases joins : chain.operator? cursor.front with
    | none =>
      simp only [joins] at read
      cases read
      exact ⟨.noLink, rfl, .refl cursor, Nat.zero_le limit, trivial⟩
    | some operator =>
      simp only [joins] at read
      obtain ⟨sign, afterSign, signRead, read⟩ := bind_eq_ok_iff.mp read
      obtain ⟨rightTree, afterRight, rightRead, laterRead⟩ := bind_eq_ok_iff.mp read
      obtain ⟨rfl, signPassed⟩ := payAndTake_sound closed signRead
      have signPasses := signPassed (isFinish_of_joins joins)
      have closedRight := signPasses.closed closed
      obtain ⟨right, rfl, rightSpans⟩ := operand.sound closedRight rightRead
      obtain ⟨later, laterTree, laterSpans⟩ := ih (rightSpans.passes.closed closedRight) laterRead
      refine ⟨.link cursor.front operator joins right later, laterTree, ?_, ?_, ?_⟩
      · exact (signPasses.trans rightSpans.passes).trans laterSpans.passes
      · exact Nat.max_le.mpr ⟨rightSpans.depth_le, laterSpans.depth_le⟩
      · exact ⟨rightSpans.accepted, laterSpans.accepted⟩

/-- The rounds suffice as long as there are more of them than nodes that can be paid for. -/
theorem chainFrom_complete (operand : Recognizes chain.operand limit reader)
    {links : Phrase α (.links chain)} {rounds : Nat} :
    ∀ {cursor last : Cursor α} {left : Expr α}, cursor.allowance < rounds →
      links.Spans limit cursor last → (Grade.links chain).Ends last.front →
        chainFrom chain.operator? reader rounds left cursor = .ok (links.meaning left) last := by
  induction rounds generalizing links with
  | zero =>
    intro cursor last left enough
    omega
  | succ rounds ih =>
    intro cursor last left enough spans ends
    rw [chainFrom, front_bind]
    cases links with
    | noLink =>
      obtain rfl := spans.passes.eq_of_nil
      simp only [ends.2]
      rfl
    | link sign operator joins right later =>
      obtain ⟨afterRight, frontPasses, laterPasses⟩ :=
        Cursor.Passes.split (sign :: right.tokens) later.tokens (1 + right.nodes) later.nodes
          spans.passes
      obtain ⟨afterSign, signPasses, rightPasses⟩ :=
        Cursor.Passes.split [sign] right.tokens 1 right.nodes frontPasses
      obtain ⟨rightDepth, laterDepth⟩ := Nat.max_le.mp spans.depth_le
      have rightEnds : chain.operand.Ends afterRight.front :=
        Phrase.links_endsBefore chain later (Grade.endsBefore_cons (.links chain) ends)
          afterRight.front afterRight.behind laterPasses.tokens_eq.symm
      have rightRead := operand.complete right ⟨rightPasses, rightDepth, spans.accepted.1⟩ rightEnds
      have paid := signPasses.allowance_eq
      have rightPaid := rightPasses.allowance_eq
      have enoughLater : afterRight.allowance < rounds := by omega
      simp only [spans.passes.front_eq, joins]
      rw [bind_of_ok (payAndTake_of_passes signPasses (isFinish_of_joins joins)),
        bind_of_ok rightRead]
      exact ih enoughLater ⟨laterPasses, laterDepth, spans.accepted.2⟩ ends

theorem chain_sound (operand : Recognizes chain.operand limit reader) {cursor last : Cursor α}
    {tree : Expr α} (closed : Closed cursor.tokens)
    (read : Reader.chain chain.operator? reader cursor = .ok tree last) :
    ∃ (first : Phrase α (.expr chain.operand)) (links : Phrase α (.links chain))
      (between : Cursor α),
      links.meaning first.meaning = tree ∧ first.Spans limit cursor between ∧
        links.Spans limit between last := by
  obtain ⟨firstTree, between, firstRead, linksRead⟩ := bind_eq_ok_iff.mp read
  obtain ⟨first, rfl, firstSpans⟩ := operand.sound closed firstRead
  rw [allowance_bind] at linksRead
  obtain ⟨links, linksTree, linksSpans⟩ :=
    chainFrom_sound operand _ (firstSpans.passes.closed closed) linksRead
  exact ⟨first, links, between, linksTree, firstSpans, linksSpans⟩

theorem chain_complete (operand : Recognizes chain.operand limit reader)
    {cursor between last : Cursor α} {first : Phrase α (.expr chain.operand)}
    {links : Phrase α (.links chain)} (firstSpans : first.Spans limit cursor between)
    (linksSpans : links.Spans limit between last) (ends : (Grade.links chain).Ends last.front) :
    Reader.chain chain.operator? reader cursor = .ok (links.meaning first.meaning) last := by
  have firstEnds : chain.operand.Ends between.front :=
    Phrase.links_endsBefore chain links (Grade.endsBefore_cons (.links chain) ends) between.front
      between.behind linksSpans.passes.tokens_eq.symm
  rw [Reader.chain, bind_of_ok (operand.complete first firstSpans firstEnds), allowance_bind]
  exact chainFrom_complete operand (Nat.lt_succ_self _) linksSpans ends

end Chains

theorem product_recognizes {limit : Nat} {reader : Reader α (Expr α)}
    (unary : Recognizes .unary limit reader) :
    Recognizes .product limit (chain multiplicative? reader) where
  sound closed read := by
    obtain ⟨first, links, between, treeEq, firstSpans, linksSpans⟩ :=
      chain_sound (show Recognizes Chain.multiplicative.operand limit reader from unary) closed read
    exact ⟨.product first links, treeEq, firstSpans.passes.trans linksSpans.passes,
      Nat.max_le.mpr ⟨firstSpans.depth_le, linksSpans.depth_le⟩,
      firstSpans.accepted, linksSpans.accepted⟩
  complete phrase spans ends := by
    cases phrase with
    | product first links =>
      obtain ⟨between, firstPasses, linksPasses⟩ :=
        Cursor.Passes.split first.tokens links.tokens first.nodes links.nodes spans.passes
      obtain ⟨firstDepth, linksDepth⟩ := Nat.max_le.mp spans.depth_le
      exact chain_complete (show Recognizes Chain.multiplicative.operand limit reader from unary)
        ⟨firstPasses, firstDepth, spans.accepted.1⟩ ⟨linksPasses, linksDepth, spans.accepted.2⟩ ends

theorem sum_recognizes {limit : Nat} {reader : Reader α (Expr α)}
    (product : Recognizes .product limit reader) :
    Recognizes .sum limit (chain additive? reader) where
  sound closed read := by
    obtain ⟨first, links, between, treeEq, firstSpans, linksSpans⟩ :=
      chain_sound (show Recognizes Chain.additive.operand limit reader from product) closed read
    exact ⟨.sum first links, treeEq, firstSpans.passes.trans linksSpans.passes,
      Nat.max_le.mpr ⟨firstSpans.depth_le, linksSpans.depth_le⟩,
      firstSpans.accepted, linksSpans.accepted⟩
  complete phrase spans ends := by
    cases phrase with
    | sum first links =>
      obtain ⟨between, firstPasses, linksPasses⟩ :=
        Cursor.Passes.split first.tokens links.tokens first.nodes links.nodes spans.passes
      obtain ⟨firstDepth, linksDepth⟩ := Nat.max_le.mp spans.depth_le
      exact chain_complete (show Recognizes Chain.additive.operand limit reader from product)
        ⟨firstPasses, firstDepth, spans.accepted.1⟩ ⟨linksPasses, linksDepth, spans.accepted.2⟩ ends

section Arguments

variable {limit : Nat} {reader : Reader α (Expr α)}

omit [Numeral α] in
theorem laterArguments_comma {cursor : Cursor α} (separates : cursor.front.kind = .comma)
    (rounds : Nat) :
    laterArguments reader (rounds + 1) cursor =
      (do
        let _ ← take
        let next ← reader
        return next :: (← laterArguments reader rounds)) cursor := by
  rw [laterArguments, front_bind]
  simp only [separates]

omit [Numeral α] in
theorem laterArguments_other {cursor : Cursor α} (noComma : cursor.front.kind ≠ .comma)
    (rounds : Nat) : laterArguments reader rounds cursor = .ok [] cursor := by
  cases rounds with
  | zero => rfl
  | succ rounds =>
    rw [laterArguments, front_bind]
    cases kindEq : cursor.front.kind
    case comma => exact absurd kindEq noComma
    all_goals rfl

theorem laterArguments_sound (argument : Recognizes .sum limit reader) (rounds : Nat) :
    ∀ {cursor last : Cursor α} {trees : List (Expr α)}, Closed cursor.tokens →
      laterArguments reader rounds cursor = .ok trees last →
        ∃ later : Phrase α .arguments, later.meaning = trees ∧ later.Spans limit cursor last := by
  induction rounds with
  | zero =>
    intro cursor last trees closed read
    cases read
    exact ⟨.noArgument, rfl, .refl cursor, Nat.zero_le limit, trivial⟩
  | succ rounds ih =>
    intro cursor last trees closed read
    by_cases separates : cursor.front.kind = .comma
    · rw [laterArguments_comma separates] at read
      obtain ⟨comma, afterComma, commaRead, read⟩ := bind_eq_ok_iff.mp read
      obtain ⟨nextTree, afterNext, nextRead, read⟩ := bind_eq_ok_iff.mp read
      obtain ⟨laterTrees, afterLater, laterRead, done⟩ := bind_eq_ok_iff.mp read
      cases commaRead
      cases done
      have commaPasses := Cursor.passes_advanced closed (isFinish_of_kind separates (by simp))
      have closedNext := commaPasses.closed closed
      obtain ⟨next, rfl, nextSpans⟩ := argument.sound closedNext nextRead
      obtain ⟨later, rfl, laterSpans⟩ := ih (nextSpans.passes.closed closedNext) laterRead
      refine ⟨.argument cursor.front separates next later, rfl, ?_, ?_, ?_⟩
      · have passes := (commaPasses.trans nextSpans.passes).trans laterSpans.passes
        rw [Nat.zero_add] at passes
        exact passes
      · exact Nat.max_le.mpr ⟨nextSpans.depth_le, laterSpans.depth_le⟩
      · exact ⟨nextSpans.accepted, laterSpans.accepted⟩
    · rw [laterArguments_other separates] at read
      cases read
      exact ⟨.noArgument, rfl, .refl cursor, Nat.zero_le limit, trivial⟩

theorem laterArguments_complete (argument : Recognizes .sum limit reader) {rounds : Nat} :
    ∀ {later : Phrase α .arguments} {cursor last : Cursor α}, cursor.allowance < rounds →
      later.Spans limit cursor last → Grade.arguments.Ends last.front →
        laterArguments reader rounds cursor = .ok later.meaning last := by
  induction rounds with
  | zero =>
    intro later cursor last enough
    omega
  | succ rounds ih =>
    intro later cursor last enough spans ends
    cases later with
    | noArgument =>
      obtain rfl := spans.passes.eq_of_nil
      exact laterArguments_other ends.2 _
    | argument comma separates next later =>
      obtain ⟨afterNext, frontPasses, laterPasses⟩ :=
        Cursor.Passes.split (comma :: next.tokens) later.tokens next.nodes later.nodes spans.passes
      have frontPasses' : cursor.Passes afterNext ([comma] ++ next.tokens) (0 + next.nodes) := by
        rw [Nat.zero_add]
        exact frontPasses
      obtain ⟨afterComma, commaPasses, nextPasses⟩ :=
        Cursor.Passes.split [comma] next.tokens 0 next.nodes frontPasses'
      obtain ⟨nextDepth, laterDepth⟩ := Nat.max_le.mp spans.depth_le
      have nextEnds : Rank.sum.Ends afterNext.front :=
        Phrase.arguments_endsBefore later (Grade.endsBefore_cons .arguments ends) afterNext.front
          afterNext.behind laterPasses.tokens_eq.symm
      have nextRead := argument.complete next ⟨nextPasses, nextDepth, spans.accepted.1⟩ nextEnds
      have nextPos := next.nodes_pos
      have paid := frontPasses.allowance_eq
      have enoughLater : afterNext.allowance < rounds := by omega
      have laterRead := ih enoughLater ⟨laterPasses, laterDepth, spans.accepted.2⟩ ends
      have isComma : cursor.front.kind = .comma := spans.passes.front_eq ▸ separates
      rw [laterArguments_comma isComma,
        bind_of_ok (take_of_passes commaPasses (isFinish_of_kind separates (by simp))),
        bind_of_ok nextRead, bind_of_ok laterRead]
      rfl

theorem arguments_sound (argument : Recognizes .sum limit reader) {cursor last : Cursor α}
    {trees : List (Expr α)} (closed : Closed cursor.tokens)
    (read : arguments reader cursor = .ok trees last) :
    ∃ (first : Phrase α (.expr .sum)) (later : Phrase α .arguments) (between : Cursor α),
      first.meaning :: later.meaning = trees ∧ first.Spans limit cursor between ∧
        later.Spans limit between last := by
  obtain ⟨firstTree, between, firstRead, read⟩ := bind_eq_ok_iff.mp read
  rw [allowance_bind] at read
  obtain ⟨laterTrees, afterLater, laterRead, done⟩ := bind_eq_ok_iff.mp read
  cases done
  obtain ⟨first, rfl, firstSpans⟩ := argument.sound closed firstRead
  obtain ⟨later, rfl, laterSpans⟩ :=
    laterArguments_sound argument _ (firstSpans.passes.closed closed) laterRead
  exact ⟨first, later, between, rfl, firstSpans, laterSpans⟩

end Arguments

/-! ### Operands -/

section Operands

variable {limit : Nat} {reader : Reader α (Expr α)}

theorem call_sound (inner : Recognizes .sum limit reader) {start cursor last : Cursor α}
    {name : Token α} {tree : Expr α} (namePasses : start.Passes cursor [name] 1)
    (closed : Closed cursor.tokens) (isName : name.kind = .name)
    (opens : cursor.front.kind = .opening) (read : call reader name cursor = .ok tree last) :
    ∃ phrase : Phrase α (.expr .operand), phrase.meaning = tree ∧
      phrase.Spans (limit + 1) start last := by
  unfold call at read
  cases isFunction : Elementary.ofName? name.text with
  | none =>
    simp only [isFunction] at read
    cases read
  | some function =>
    simp only [isFunction] at read
    obtain ⟨opening, afterOpening, openingRead, read⟩ := bind_eq_ok_iff.mp read
    obtain ⟨given, afterGiven, givenRead, read⟩ := bind_eq_ok_iff.mp read
    obtain ⟨_, afterClosing, closingRead, read⟩ := bind_eq_ok_iff.mp read
    cases openingRead
    have openingPasses := Cursor.passes_advanced closed (isFinish_of_kind opens (by simp))
    have closedFirst := openingPasses.closed closed
    obtain ⟨first, later, between, rfl, firstSpans, laterSpans⟩ :=
      arguments_sound inner closedFirst givenRead
    have closedGiven := laterSpans.passes.closed (firstSpans.passes.closed closedFirst)
    obtain ⟨closing, closes, closingPasses⟩ := takeClosing_sound closedGiven closingRead
    split at read
    · rename_i accepts
      cases read
      refine ⟨.call name isName function isFunction cursor.front opens first later closing closes,
        rfl, ?_, ?_, ?_⟩
      · have passes := (namePasses.trans openingPasses).trans
          (firstSpans.passes.trans (laterSpans.passes.trans closingPasses))
        exact passes
      · have deepest := Nat.max_le.mpr ⟨firstSpans.depth_le, laterSpans.depth_le⟩
        simp only [Phrase.depth]
        omega
      · exact ⟨firstSpans.accepted, laterSpans.accepted, accepts⟩
    · cases read

theorem bareName_sound {start cursor last : Cursor α} {name : Token α} {tree : Expr α}
    (namePasses : start.Passes cursor [name] 1) (isName : name.kind = .name)
    (read : bareName name cursor = .ok tree last) :
    ∃ phrase : Phrase α (.expr .operand), phrase.meaning = tree ∧
      phrase.Spans (limit + 1) start last := by
  unfold bareName at read
  cases isConstant : Numeral.constant? (α := α) name.text with
  | none =>
    simp only [isConstant] at read
    split at read
    · cases read
    · cases read
  | some literal =>
    simp only [isConstant] at read
    cases read
    exact ⟨.constant name isName literal isConstant, rfl, namePasses, Nat.le_add_left 1 limit,
      trivial⟩

theorem named_sound (inner : Recognizes .sum limit reader) {start cursor last : Cursor α}
    {name : Token α} {tree : Expr α} (namePasses : start.Passes cursor [name] 1)
    (closed : Closed cursor.tokens) (isName : name.kind = .name)
    (read : named reader name cursor = .ok tree last) :
    ∃ phrase : Phrase α (.expr .operand), phrase.meaning = tree ∧
      phrase.Spans (limit + 1) start last := by
  rw [named, front_bind] at read
  by_cases isVariable : (name.text == Expr.variableName) = true
  · rw [if_pos isVariable] at read
    cases read
    exact ⟨.var name isName (eq_of_beq isVariable), rfl, namePasses, Nat.le_add_left 1 limit,
      trivial⟩
  · rw [if_neg isVariable] at read
    cases kindEq : cursor.front.kind <;> simp only [kindEq] at read
    case opening => exact call_sound inner namePasses closed isName kindEq read
    all_goals exact bareName_sound namePasses isName read

theorem operand_sound (inner : Recognizes .sum limit reader) {cursor last : Cursor α}
    {tree : Expr α} (closed : Closed cursor.tokens)
    (read : operand reader cursor = .ok tree last) :
    ∃ phrase : Phrase α (.expr .operand), phrase.meaning = tree ∧
      phrase.Spans (limit + 1) cursor last := by
  obtain ⟨token, afterToken, tokenRead, read⟩ := bind_eq_ok_iff.mp read
  obtain ⟨_, passed⟩ := payAndTake_sound closed tokenRead
  cases kindEq : token.kind <;> simp only [kindEq] at read
  case number literal =>
    cases read
    have tokenPasses := passed (isFinish_of_kind kindEq (by simp))
    exact ⟨.number token literal kindEq, rfl, tokenPasses, Nat.le_add_left 1 limit, trivial⟩
  case name =>
    have tokenPasses := passed (isFinish_of_kind kindEq (by simp))
    exact named_sound inner tokenPasses (tokenPasses.closed closed) kindEq read
  case opening =>
    have tokenPasses := passed (isFinish_of_kind kindEq (by simp))
    have closedGroup := tokenPasses.closed closed
    obtain ⟨groupTree, afterGroup, groupRead, read⟩ := bind_eq_ok_iff.mp read
    obtain ⟨_, afterClosing, closingRead, done⟩ := bind_eq_ok_iff.mp read
    cases done
    obtain ⟨group, rfl, groupSpans⟩ := inner.sound closedGroup groupRead
    obtain ⟨closing, closes, closingPasses⟩ :=
      takeClosing_sound (groupSpans.passes.closed closedGroup) closingRead
    refine ⟨.group token kindEq group closing closes, rfl, ?_, ?_, groupSpans.accepted⟩
    · exact tokenPasses.trans (groupSpans.passes.trans closingPasses)
    · have deep := groupSpans.depth_le
      simp only [Phrase.depth]
      omega
  all_goals cases read

theorem call_complete (inner : Recognizes .sum limit reader) {cursor last : Cursor α}
    {name opening closing : Token α} {function : Elementary} {first : Phrase α (.expr .sum)}
    {later : Phrase α .arguments} (isFunction : Elementary.ofName? name.text = some function)
    (opens : opening.kind = .opening) (closes : closing.kind = .closing)
    (passes : cursor.Passes last (opening :: (first.tokens ++ (later.tokens ++ [closing])))
      (first.nodes + later.nodes))
    (deep : max first.depth later.depth ≤ limit) (firstAccepted : first.CallsAccepted)
    (laterAccepted : later.CallsAccepted)
    (accepts : function.acceptsCount (later.meaning.length + 1) = true) :
    call reader name cursor = .ok (.call function (first.meaning :: later.meaning)) last := by
  have passes' : cursor.Passes last ([opening] ++ (first.tokens ++ (later.tokens ++ [closing])))
      (0 + (first.nodes + (later.nodes + 0))) := by
    rw [Nat.zero_add]
    exact passes
  obtain ⟨afterOpening, openingPasses, passes'⟩ := Cursor.Passes.split _ _ _ _ passes'
  obtain ⟨afterFirst, firstPasses, passes'⟩ := Cursor.Passes.split _ _ _ _ passes'
  obtain ⟨afterLater, laterPasses, closingPasses⟩ := Cursor.Passes.split _ _ _ _ passes'
  obtain ⟨firstDepth, laterDepth⟩ := Nat.max_le.mp deep
  have isClosing : afterLater.front.kind = .closing := closingPasses.front_eq ▸ closes
  have laterEnds : Grade.arguments.Ends afterLater.front := Grade.ends_closing isClosing
  have firstEnds : Rank.sum.Ends afterFirst.front :=
    Phrase.arguments_endsBefore later (Grade.endsBefore_cons .arguments laterEnds) afterFirst.front
      afterFirst.behind laterPasses.tokens_eq.symm
  have firstRead := inner.complete first ⟨firstPasses, firstDepth, firstAccepted⟩ firstEnds
  have laterRead := laterArguments_complete inner (Nat.lt_succ_self _)
    ⟨laterPasses, laterDepth, laterAccepted⟩ laterEnds
  have givenRead : arguments reader afterOpening =
      .ok (first.meaning :: later.meaning) afterLater := by
    rw [arguments, bind_of_ok firstRead, allowance_bind, bind_of_ok laterRead]
    rfl
  unfold call
  simp only [isFunction]
  rw [bind_of_ok (take_of_passes openingPasses (isFinish_of_kind opens (by simp))),
    bind_of_ok givenRead, bind_of_ok (takeClosing_of_passes closingPasses closes),
    List.length_cons, if_pos accepts]
  rfl

theorem operand_complete (inner : Recognizes .sum limit reader) {cursor last : Cursor α}
    (phrase : Phrase α (.expr .operand)) (spans : phrase.Spans (limit + 1) cursor last)
    (ends : Rank.operand.Ends last.front) :
    operand reader cursor = .ok phrase.meaning last := by
  unfold operand
  cases phrase with
  | number token literal isNumber =>
    rw [bind_of_ok (payAndTake_of_passes spans.passes (isFinish_of_kind isNumber (by simp)))]
    simp only [isNumber]
    rfl
  | var token isName isVariable =>
    rw [bind_of_ok (payAndTake_of_passes spans.passes (isFinish_of_kind isName (by simp)))]
    simp only [isName]
    rw [named, front_bind, if_pos (beq_iff_eq.mpr isVariable)]
    rfl
  | constant token isName literal isConstant =>
    have notVariable : ¬(token.text == Expr.variableName) = true := by
      intro isVariable
      rw [eq_of_beq isVariable] at isConstant
      cases isConstant
    have bareRead : bareName token last = .ok (.number literal) last := by
      unfold bareName
      simp only [isConstant]
      rfl
    rw [bind_of_ok (payAndTake_of_passes spans.passes (isFinish_of_kind isName (by simp)))]
    simp only [isName]
    rw [named, front_bind, if_neg notVariable]
    cases kindEq : last.front.kind
    case opening => exact absurd kindEq ends
    all_goals exact bareRead
  | group opening opens inside closing closes =>
    obtain ⟨afterOpening, openingPasses, passes⟩ :=
      Cursor.Passes.split [opening] (inside.tokens ++ [closing]) 1 inside.nodes spans.passes
    obtain ⟨afterInside, insidePasses, closingPasses⟩ :=
      Cursor.Passes.split inside.tokens [closing] inside.nodes 0 passes
    have deep : 1 + inside.depth ≤ limit + 1 := spans.depth_le
    have insideDepth : inside.depth ≤ limit := by omega
    have isClosing : afterInside.front.kind = .closing := closingPasses.front_eq ▸ closes
    have insideRead := inner.complete inside ⟨insidePasses, insideDepth, spans.accepted⟩
      (Rank.ends_closing isClosing .sum)
    rw [bind_of_ok (payAndTake_of_passes openingPasses (isFinish_of_kind opens (by simp)))]
    simp only [opens]
    rw [bind_of_ok insideRead, bind_of_ok (takeClosing_of_passes closingPasses closes)]
    rfl
  | call name isName function isFunction opening opens first later closing closes =>
    obtain ⟨afterName, namePasses, passes⟩ :=
      Cursor.Passes.split [name] (opening :: (first.tokens ++ (later.tokens ++ [closing]))) 1
        (first.nodes + later.nodes) spans.passes
    have notVariable : ¬(name.text == Expr.variableName) = true := by
      intro isVariable
      rw [eq_of_beq isVariable] at isFunction
      cases isFunction
    have deep : 1 + max first.depth later.depth ≤ limit + 1 := spans.depth_le
    obtain ⟨firstAccepted, laterAccepted, accepts⟩ := spans.accepted
    have isOpening : afterName.front.kind = .opening := passes.front_eq ▸ opens
    rw [bind_of_ok (payAndTake_of_passes namePasses (isFinish_of_kind isName (by simp)))]
    simp only [isName]
    rw [named, front_bind, if_neg notVariable]
    simp only [isOpening]
    exact call_complete inner isFunction opens closes passes (by omega) firstAccepted laterAccepted
      accepts

theorem operand_recognizes (inner : Recognizes .sum limit reader) :
    Recognizes .operand (limit + 1) (operand reader) where
  sound closed read := operand_sound inner closed read
  complete phrase spans ends := operand_complete inner phrase spans ends

end Operands

theorem power_recognizes {limit : Nat} {inner : Level α}
    (unary : Recognizes .unary limit inner.unary) (sum : Recognizes .sum limit inner.sum) :
    Recognizes .power (limit + 1) (Reader.power inner) where
  sound {cursor last tree} closed read := by
    obtain ⟨baseTree, afterBase, baseRead, read⟩ := bind_eq_ok_iff.mp read
    obtain ⟨base, rfl, baseSpans⟩ := (operand_recognizes sum).sound closed baseRead
    have closedBase := baseSpans.passes.closed closed
    rw [front_bind] at read
    by_cases isCaret : afterBase.front.symbol? = some '^'
    · simp only [isCaret] at read
      obtain ⟨sign, afterSign, signRead, read⟩ := bind_eq_ok_iff.mp read
      obtain ⟨exponentTree, afterExponent, exponentRead, done⟩ := bind_eq_ok_iff.mp read
      cases done
      obtain ⟨rfl, signPassed⟩ := payAndTake_sound closedBase signRead
      have isSign := (Token.symbol?_eq_some_iff _ _).mp isCaret
      have signPasses := signPassed (isFinish_of_kind isSign (by simp))
      obtain ⟨exponent, rfl, exponentSpans⟩ :=
        unary.sound (signPasses.closed closedBase) exponentRead
      refine ⟨.raised base afterBase.front isCaret exponent, rfl, ?_, ?_, ?_⟩
      · exact baseSpans.passes.trans (signPasses.trans exponentSpans.passes)
      · have baseDepth := baseSpans.depth_le
        have exponentDepth := exponentSpans.depth_le
        simp only [Phrase.depth]
        omega
      · exact ⟨baseSpans.accepted, exponentSpans.accepted⟩
    · simp only at read
      cases read
      refine ⟨.unraised base, rfl, ?_, ?_, ?_⟩
      · exact baseSpans.passes
      · exact baseSpans.depth_le
      · exact baseSpans.accepted
  complete {cursor last} phrase spans ends := by
    unfold Reader.power
    cases phrase with
    | unraised base =>
      have baseRead := (operand_recognizes sum).complete base
        ⟨spans.passes, spans.depth_le, spans.accepted⟩ ends.1
      have noCaret := ends.2
      rw [bind_of_ok baseRead, front_bind]
      simp only
      rfl
    | raised base sign isCaret exponent =>
      obtain ⟨afterBase, basePasses, passes⟩ :=
        Cursor.Passes.split base.tokens (sign :: exponent.tokens) base.nodes (1 + exponent.nodes)
          spans.passes
      obtain ⟨afterSign, signPasses, exponentPasses⟩ :=
        Cursor.Passes.split [sign] exponent.tokens 1 exponent.nodes passes
      obtain ⟨baseDepth, deep⟩ := Nat.max_le.mp spans.depth_le
      have exponentDepth : exponent.depth ≤ limit := by omega
      have isSign := (Token.symbol?_eq_some_iff _ _).mp isCaret
      have frontCaret : afterBase.front.symbol? = some '^' := passes.front_eq ▸ isCaret
      have baseRead := (operand_recognizes sum).complete base
        ⟨basePasses, baseDepth, spans.accepted.1⟩ (Rank.operand_ends_caret frontCaret)
      have exponentRead := unary.complete exponent
        ⟨exponentPasses, exponentDepth, spans.accepted.2⟩ ends
      rw [bind_of_ok baseRead, front_bind]
      simp only [frontCaret]
      rw [bind_of_ok (payAndTake_of_passes signPasses (isFinish_of_kind isSign (by simp))),
        bind_of_ok exponentRead]
      rfl

theorem unary_recognizes {limit : Nat} {inner : Level α}
    (unary : Recognizes .unary limit inner.unary) (sum : Recognizes .sum limit inner.sum) :
    Recognizes .unary (limit + 1) (Reader.unary inner) where
  sound {cursor last tree} closed read := by
    rw [Reader.unary, front_bind] at read
    by_cases isMinus : cursor.front.symbol? = some '-'
    · simp only [isMinus] at read
      obtain ⟨sign, afterSign, signRead, read⟩ := bind_eq_ok_iff.mp read
      obtain ⟨negatedTree, afterNegated, negatedRead, done⟩ := bind_eq_ok_iff.mp read
      cases done
      obtain ⟨rfl, signPassed⟩ := payAndTake_sound closed signRead
      have isSign := (Token.symbol?_eq_some_iff _ _).mp isMinus
      have signPasses := signPassed (isFinish_of_kind isSign (by simp))
      obtain ⟨negated, rfl, negatedSpans⟩ := unary.sound (signPasses.closed closed) negatedRead
      refine ⟨.minus cursor.front isMinus negated, rfl, ?_, ?_, negatedSpans.accepted⟩
      · exact signPasses.trans negatedSpans.passes
      · have deep := negatedSpans.depth_le
        simp only [Phrase.depth]
        omega
    · simp only at read
      obtain ⟨phrase, treeEq, spans⟩ := (power_recognizes unary sum).sound closed read
      exact ⟨.unsigned phrase, treeEq, spans.passes, spans.depth_le, spans.accepted⟩
  complete {cursor last} phrase spans ends := by
    rw [Reader.unary, front_bind]
    cases phrase with
    | minus sign isMinus negated =>
      obtain ⟨afterSign, signPasses, negatedPasses⟩ :=
        Cursor.Passes.split [sign] negated.tokens 1 negated.nodes spans.passes
      have deep : 1 + negated.depth ≤ limit + 1 := spans.depth_le
      have isSign := (Token.symbol?_eq_some_iff _ _).mp isMinus
      have frontMinus : cursor.front.symbol? = some '-' := spans.passes.front_eq ▸ isMinus
      have negatedRead := unary.complete negated
        ⟨negatedPasses, by omega, spans.accepted⟩ ends
      simp only [frontMinus]
      rw [bind_of_ok (payAndTake_of_passes signPasses (isFinish_of_kind isSign (by simp))),
        bind_of_ok negatedRead]
      rfl
    | unsigned phrase =>
      obtain ⟨token, later, tokensEq, noSymbol⟩ := phrase.tokens_power
      have frontEq : cursor.front = token := by
        have passes := spans.passes
        rw [Phrase.tokens, tokensEq] at passes
        exact passes.front_eq
      rw [frontEq, noSymbol]
      exact (power_recognizes unary sum).complete phrase
        ⟨spans.passes, spans.depth_le, spans.accepted⟩ ends

/-- With some levels left to descend, the readers find the phrases down to that depth. -/
theorem level_recognizes (limit : Nat) :
    Recognizes (α := α) .unary limit (level limit).unary ∧
      Recognizes (α := α) .sum limit (level limit).sum := by
  induction limit with
  | zero =>
    constructor
    · refine ⟨fun closed read => (by cases read), fun phrase spans ends => ?_⟩
      exact absurd spans.depth_le (Nat.not_le_of_gt phrase.depth_pos)
    · refine ⟨fun closed read => (by cases read), fun phrase spans ends => ?_⟩
      exact absurd spans.depth_le (Nat.not_le_of_gt phrase.depth_pos)
  | succ limit ih =>
    have unary := unary_recognizes ih.1 ih.2
    exact ⟨unary, sum_recognizes (product_recognizes unary)⟩

end Reader

end Tangency
