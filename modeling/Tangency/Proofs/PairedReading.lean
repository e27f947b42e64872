/-
Two runs of the same readers, step by step.

Readers look at the kind and the text of the token at hand, at its position only to say where they
failed, and at the allowance only to refuse or to bound rounds.  So two runs whose cursors stand on
corresponding tokens return the same tree, or fail with the same fault at corresponding places.
Unequal allowances do not matter until the first run is out of its own; such failures of it may be
excused, and the second run then goes on alone.
-/

import Mathlib.Data.List.Forall2
import Tangency.Proofs.ReaderBudgets

namespace Tangency

variable {α β γ : Type}

/-- Tokens that agree in all but their positions, which correspond. -/
structure Token.Corresponds (places : Nat → Nat → Prop) (left right : Token α) : Prop where
  kind_eq : left.kind = right.kind
  text_eq : left.text = right.text
  place : places left.position right.position

section Tokens

variable {places : Nat → Nat → Prop} {left right : Token α}

theorem Token.Corresponds.found_eq (same : left.Corresponds places right) :
    left.found = right.found := by
  rw [found, found, same.kind_eq, same.text_eq]

theorem Token.Corresponds.symbol?_eq (same : left.Corresponds places right) :
    left.symbol? = right.symbol? := by
  rw [symbol?, symbol?, same.kind_eq]

theorem Token.Corresponds.isFinish_eq (same : left.Corresponds places right) :
    left.isFinish = right.isFinish := by
  rw [isFinish, isFinish, same.kind_eq]

end Tokens

inductive Failure.Corresponds (places : Nat → Nat → Prop) : Failure α → Failure α → Prop where
  | placed {position position' : Nat} (fault : Fault) (place : places position position') :
      Corresponds places (.malformed position fault) (.malformed position' fault)
  | unplaced {failure : Failure α} (nowhere : failure.position? = none) :
      Corresponds places failure failure

theorem Failure.Corresponds.eq {failure failure' : Failure α}
    (same : failure.Corresponds Eq failure') : failure = failure' := by
  cases same with
  | placed fault place => rw [place]
  | unplaced => rfl

theorem Cursor.forall₂_advanced {agree : Token α → Token α → Prop}
    (finishAlike : ∀ {token token' : Token α}, agree token token' →
      token.isFinish = token'.isFinish)
    {left right : Cursor α} (agrees : List.Forall₂ agree left.tokens right.tokens) :
    List.Forall₂ agree left.advanced.tokens right.advanced.tokens := by
  obtain ⟨front, behind, allowance, taken⟩ := left
  obtain ⟨front', behind', allowance', taken'⟩ := right
  cases agrees with
  | cons same later =>
    unfold advanced
    simp only [← finishAlike same]
    split
    · exact .cons same later
    · cases later with
      | nil => exact .cons same .nil
      | cons next others => exact .cons next others

/-- A relation between the cursors of two runs that no step of a reader leads out of, except that
the first run may fail for want of allowance where this is excused. -/
structure Pairing (α : Type) where
  related : Cursor α → Cursor α → Prop
  places : Nat → Nat → Prop
  excused : Failure α → Prop
  front {left right : Cursor α} :
    related left right → left.front.Corresponds places right.front
  advanced {left right : Cursor α} : related left right → related left.advanced right.advanced
  paid {left right : Cursor α} {rest : Nat} : related left right → left.allowance = rest + 1 →
    ∃ rest', right.allowance = rest' + 1 ∧
      related { left with allowance := rest } { right with allowance := rest' }
  exhausted {left right : Cursor α} : related left right → left.allowance = 0 →
    right.allowance = 0 ∨
      excused (.malformed left.front.position (.tooLong Reader.nodeLimit))

namespace Pairing

/-- How a pair of runs may end: with results that agree, with corresponding failures, or with an
excused failure of the first run. -/
inductive Outcome (pairing : Pairing α) (agree : β → β → Prop) :
    EStateM.Result (Failure α) (Cursor α) β → EStateM.Result (Failure α) (Cursor α) β → Prop where
  | ok {result result' : β} (agrees : agree result result') {left right : Cursor α}
      (related : pairing.related left right) :
      Outcome pairing agree (.ok result left) (.ok result' right)
  | error {failure failure' : Failure α} (same : failure.Corresponds pairing.places failure')
      {left right : Cursor α} (related : pairing.related left right) :
      Outcome pairing agree (.error failure left) (.error failure' right)
  | excused {failure : Failure α} (excuse : pairing.excused failure) (last : Cursor α)
      (other : EStateM.Result (Failure α) (Cursor α) β) :
      Outcome pairing agree (.error failure last) other

/-- Run from related cursors, the readers end alike. -/
def Pairs (pairing : Pairing α) (agree : β → β → Prop) (reader reader' : Reader α β) : Prop :=
  ∀ left right, pairing.related left right → pairing.Outcome agree (reader left) (reader' right)

variable {pairing : Pairing α}

theorem Pairs.bind {agree : β → β → Prop} {agree' : γ → γ → Prop} {first first' : Reader α β}
    {later later' : β → Reader α γ} (firstPairs : pairing.Pairs agree first first')
    (laterPairs : ∀ middle middle', agree middle middle' →
      pairing.Pairs agree' (later middle) (later' middle')) :
    pairing.Pairs agree' (first >>= later) (first' >>= later') := by
  intro left right start
  have outcomes := firstPairs left right start
  change pairing.Outcome agree' (EStateM.bind first later left) (EStateM.bind first' later' right)
  unfold EStateM.bind
  generalize first left = fromLeft at outcomes
  generalize first' right = fromRight at outcomes
  cases outcomes with
  | ok agrees related => exact laterPairs _ _ agrees _ _ related
  | error same related => exact .error same related
  | excused excuse last other => exact .excused excuse last _

theorem Pairs.bind_same {agree' : γ → γ → Prop} {first first' : Reader α β}
    {later later' : β → Reader α γ} (firstPairs : pairing.Pairs Eq first first')
    (laterPairs : ∀ middle, pairing.Pairs agree' (later middle) (later' middle)) :
    pairing.Pairs agree' (first >>= later) (first' >>= later') := by
  apply firstPairs.bind
  rintro middle _ rfl
  exact laterPairs middle

/-- A loop pairs with itself, though the two allowances may admit different numbers of rounds, if
rounds beyond the allowance make no difference. -/
theorem Pairs.of_rounds {loop : Nat → Reader α β} {reader : Reader α β}
    (pairs : ∀ rounds, pairing.Pairs Eq (loop rounds) (loop rounds))
    (same : ∀ rounds cursor, cursor.allowance < rounds → reader cursor = loop rounds cursor) :
    pairing.Pairs Eq reader reader := by
  intro left right start
  let rounds := max left.allowance right.allowance + 1
  rw [same rounds left (Nat.lt_succ_of_le (Nat.le_max_left _ _)),
    same rounds right (Nat.lt_succ_of_le (Nat.le_max_right _ _))]
  exact pairs rounds left right start

end Pairing

namespace Reader

variable (pairing : Pairing α)

theorem pure_pairs {agree : β → β → Prop} {result result' : β} (agrees : agree result result') :
    pairing.Pairs agree (pure result) (pure result') :=
  fun _ _ start => .ok agrees start

theorem failWith_pairs {failure failure' : Failure α} (agree : β → β → Prop)
    (same : failure.Corresponds pairing.places failure') :
    pairing.Pairs agree (failWith failure) (failWith failure') :=
  fun _ _ start => .error same start

theorem failHere_pairs (agree : β → β → Prop) (fault : Fault) :
    pairing.Pairs agree (failHere fault) (failHere fault) :=
  fun _ _ start => .error (.placed fault (pairing.front start).place) start

theorem failAt_pairs (agree : β → β → Prop) {token token' : Token α}
    (same : token.Corresponds pairing.places token') {fault fault' : Fault}
    (sameFault : fault = fault') :
    pairing.Pairs agree (failAt token fault) (failAt token' fault') := by
  subst sameFault
  exact failWith_pairs pairing agree (.placed fault same.place)

theorem front_pairs : pairing.Pairs (Token.Corresponds pairing.places) front front :=
  fun _ _ start => .ok (pairing.front start) start

theorem take_pairs : pairing.Pairs (Token.Corresponds pairing.places) take take :=
  fun _ _ start => .ok (pairing.front start) (pairing.advanced start)

theorem pay_pairs : pairing.Pairs Eq pay pay := by
  intro left right start
  unfold pay
  cases leftAllowance : left.allowance with
  | zero =>
    rcases pairing.exhausted start leftAllowance with rightAllowance | excuse
    · rw [rightAllowance]
      exact failHere_pairs pairing Eq _ left right start
    · exact .excused excuse left _
  | succ rest =>
    obtain ⟨rest', rightAllowance, related⟩ := pairing.paid start leftAllowance
    rw [rightAllowance]
    exact .ok rfl related

theorem payAndTake_pairs :
    pairing.Pairs (Token.Corresponds pairing.places) payAndTake payAndTake :=
  (pay_pairs pairing).bind fun _ _ _ => take_pairs pairing

theorem takeClosing_pairs : pairing.Pairs Eq takeClosing takeClosing := by
  apply (front_pairs pairing).bind
  intro token token' same
  rw [← same.kind_eq, ← same.found_eq]
  cases token.kind with
  | closing => exact (take_pairs pairing).bind fun _ _ _ => pure_pairs pairing rfl
  | _ => exact failAt_pairs pairing Eq same rfl

/-! ### Readers of expressions -/

variable {reader : Reader α (Expr α)}

abbrev IgnoresPlaces (operator? : Token α → Option Operator) : Prop :=
  ∀ places (token token' : Token α), token.Corresponds places token' →
    operator? token = operator? token'

theorem additive?_ignoresPlaces : IgnoresPlaces (additive? (α := α)) := by
  intro places token token' same
  rw [additive?, additive?, same.symbol?_eq]

theorem multiplicative?_ignoresPlaces : IgnoresPlaces (multiplicative? (α := α)) := by
  intro places token token' same
  rw [multiplicative?, multiplicative?, same.symbol?_eq]

section Expressions

variable {operator? : Token α → Option Operator} (ignores : IgnoresPlaces operator?)
  (pairs : pairing.Pairs Eq reader reader) (profits : Profits (.ofAllowance α) reader)

include pairs

include ignores in
theorem chainFrom_pairs (rounds : Nat) :
    ∀ left, pairing.Pairs Eq (chainFrom operator? reader rounds left)
      (chainFrom operator? reader rounds left) := by
  induction rounds with
  | zero => exact fun left => pure_pairs pairing rfl
  | succ rounds ih =>
    intro left
    apply (front_pairs pairing).bind
    intro token token' same
    rw [← ignores _ token token' same]
    cases operator? token with
    | none => exact pure_pairs pairing rfl
    | some operator =>
      apply (payAndTake_pairs pairing).bind
      intro _ _ _
      exact pairs.bind_same fun right => ih (.binary operator left right)

theorem laterArguments_pairs (rounds : Nat) :
    pairing.Pairs Eq (laterArguments reader rounds) (laterArguments reader rounds) := by
  induction rounds with
  | zero => exact pure_pairs pairing rfl
  | succ rounds ih =>
    apply (front_pairs pairing).bind
    intro token token' same
    rw [← same.kind_eq]
    cases token.kind with
    | comma =>
      apply (take_pairs pairing).bind
      intro _ _ _
      exact pairs.bind_same fun next => ih.bind_same fun later => pure_pairs pairing rfl
    | _ => exact pure_pairs pairing rfl

include profits

include ignores in
theorem restOfChain_pairs (left : Expr α) :
    pairing.Pairs Eq (restOfChain operator? reader left) (restOfChain operator? reader left) :=
  .of_rounds (fun rounds => chainFrom_pairs pairing ignores pairs rounds left)
    fun rounds cursor enough =>
      chainFrom_rounds profits _ rounds left cursor (Nat.lt_succ_self _) enough

theorem restOfArguments_pairs :
    pairing.Pairs Eq (restOfArguments reader) (restOfArguments reader) :=
  .of_rounds (laterArguments_pairs pairing pairs) fun rounds cursor enough =>
    laterArguments_rounds profits _ rounds cursor (Nat.lt_succ_self _) enough

include ignores in
theorem chain_pairs : pairing.Pairs Eq (chain operator? reader) (chain operator? reader) := by
  rw [(chain_loops profits).begins]
  exact pairs.bind_same fun first => restOfChain_pairs pairing ignores pairs profits first

theorem arguments_pairs : pairing.Pairs Eq (arguments reader) (arguments reader) := by
  rw [(arguments_loop profits).begins]
  apply pairs.bind_same
  intro first
  exact (restOfArguments_pairs pairing pairs profits).bind_same fun later => pure_pairs pairing rfl

theorem call_pairs {name name' : Token α} (same : name.Corresponds pairing.places name') :
    pairing.Pairs Eq (call reader name) (call reader name') := by
  unfold call
  rw [← same.text_eq]
  cases Elementary.ofName? name.text with
  | none => exact failWith_pairs pairing Eq (.unplaced rfl)
  | some function =>
    apply (take_pairs pairing).bind
    intro _ _ _
    apply (arguments_pairs pairing pairs profits).bind_same
    intro given
    apply (takeClosing_pairs pairing).bind_same
    intro _
    split
    · exact pure_pairs pairing rfl
    · exact failAt_pairs pairing Eq same rfl

variable [Numeral α]

omit pairs profits in
theorem bareName_pairs {name name' : Token α} (same : name.Corresponds pairing.places name') :
    pairing.Pairs Eq (bareName name) (bareName name') := by
  unfold bareName
  rw [← same.text_eq]
  cases Numeral.constant? (α := α) name.text with
  | some literal => exact pure_pairs pairing rfl
  | none =>
    dsimp only
    split
    · exact failAt_pairs pairing Eq same rfl
    · exact failAt_pairs pairing Eq same rfl

theorem named_pairs {name name' : Token α} (same : name.Corresponds pairing.places name') :
    pairing.Pairs Eq (named reader name) (named reader name') := by
  apply (front_pairs pairing).bind
  intro next next' sameNext
  rw [← same.text_eq, ← sameNext.kind_eq]
  split
  · exact pure_pairs pairing rfl
  · cases next.kind with
    | opening => exact call_pairs pairing pairs profits same
    | _ => exact bareName_pairs pairing same

theorem operand_pairs : pairing.Pairs Eq (operand reader) (operand reader) := by
  apply (payAndTake_pairs pairing).bind
  intro token token' same
  rw [← same.kind_eq, ← same.found_eq]
  cases token.kind with
  | number literal => exact pure_pairs pairing rfl
  | name => exact named_pairs pairing pairs profits same
  | opening =>
    apply pairs.bind_same
    intro group
    exact (takeClosing_pairs pairing).bind_same fun _ => pure_pairs pairing rfl
  | _ => exact failAt_pairs pairing Eq same rfl

end Expressions

variable [Numeral α]

structure LevelPairs (pairing : Pairing α) (inner : Level α) : Prop where
  unary : pairing.Pairs Eq inner.unary inner.unary
  sum : pairing.Pairs Eq inner.sum inner.sum

variable {pairing} {inner : Level α}

theorem power_pairs (pairs : LevelPairs pairing inner)
    (profits : Profits (.ofAllowance α) inner.sum) :
    pairing.Pairs Eq (power inner) (power inner) := by
  apply (operand_pairs pairing pairs.sum profits).bind_same
  intro base
  apply (front_pairs pairing).bind
  intro token token' same
  rw [← same.symbol?_eq]
  split
  · apply (payAndTake_pairs pairing).bind
    intro _ _ _
    exact pairs.unary.bind_same fun exponent => pure_pairs pairing rfl
  · exact pure_pairs pairing rfl

theorem unary_pairs (pairs : LevelPairs pairing inner)
    (profits : Profits (.ofAllowance α) inner.sum) :
    pairing.Pairs Eq (Reader.unary inner) (Reader.unary inner) := by
  apply (front_pairs pairing).bind
  intro token token' same
  rw [← same.symbol?_eq]
  split
  · apply (payAndTake_pairs pairing).bind
    intro _ _ _
    exact pairs.unary.bind_same fun negated => pure_pairs pairing rfl
  · exact power_pairs pairs profits

variable (pairing)

theorem level_pairs (limit : Nat) : LevelPairs pairing (level (α := α) limit) := by
  induction limit with
  | zero => exact ⟨failHere_pairs pairing Eq _, failHere_pairs pairing Eq _⟩
  | succ limit ih =>
    obtain ⟨unaryProfits, sumProfits⟩ := level_profits (.ofAllowance α) limit
    have unary := unary_pairs ih sumProfits
    have outer := Reader.unary_profits unaryProfits sumProfits
    have product := chain_pairs pairing multiplicative?_ignoresPlaces unary outer
    exact ⟨unary, chain_pairs pairing additive?_ignoresPlaces product
      (chain_profits multiplicative? outer)⟩

theorem formula_pairs : pairing.Pairs Eq (formula (α := α)) formula := by
  apply (level_pairs pairing depthLimit).sum.bind_same
  intro tree
  apply (front_pairs pairing).bind
  intro next next' same
  rw [← same.isFinish_eq, ← same.found_eq]
  split
  · exact pure_pairs pairing rfl
  · exact failAt_pairs pairing Eq same rfl

end Reader

end Tangency
