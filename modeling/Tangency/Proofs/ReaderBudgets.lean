/-
What readers spend, on any list of tokens.

Where no `finish` ends a list, a cursor may stand on its last token for ever, so the place in the
list bounds nothing.  A worth of cursors does: a node that is paid for lowers it by more than the
tokens that are taken with it raise it, commas and parentheses included.  Whatever the tokens are,
a reader of expressions makes a profit, or fails with no more worth than it began with.

With tokens free of charge, the worth is the allowance, and repetitions end by themselves and not
for want of rounds.  At a fee for each token it bounds how many are taken.
-/

import Tangency.Proofs.ReaderOutcomes

namespace Tangency

variable {α β γ : Type}

/-- Taking a token raises the worth by a fee at most; paying for a node lowers it by three fees and
one. -/
structure Budget (α : Type) where
  worth : Cursor α → Nat
  fee : Nat
  fee_le : fee ≤ 1
  worth_advanced (cursor : Cursor α) : worth cursor.advanced ≤ worth cursor + fee
  worth_paid {cursor : Cursor α} {left : Nat} (enough : cursor.allowance = left + 1) :
    worth { cursor with allowance := left } + (3 * fee + 1) ≤ worth cursor

@[simp]
theorem Cursor.allowance_advanced (cursor : Cursor α) :
    cursor.advanced.allowance = cursor.allowance := by
  unfold advanced
  split
  · rfl
  · split <;> rfl

@[simp]
theorem Cursor.taken_advanced (cursor : Cursor α) : cursor.advanced.taken = cursor.taken + 1 := by
  unfold advanced
  split
  · rfl
  · split <;> rfl

namespace Budget

def ofAllowance (α : Type) : Budget α where
  worth cursor := cursor.allowance
  fee := 0
  fee_le := Nat.zero_le 1
  worth_advanced cursor := Nat.le_of_eq cursor.allowance_advanced
  worth_paid enough := Nat.le_of_eq enough.symm

/-- The tokens taken and four more for each node that may still be paid for. -/
def ofTaken (α : Type) : Budget α where
  worth cursor := cursor.taken + 4 * cursor.allowance
  fee := 1
  fee_le := Nat.le_refl 1
  worth_advanced cursor := by
    rw [cursor.allowance_advanced, cursor.taken_advanced]
    omega
  worth_paid enough := by
    dsimp only
    omega

/-- An outcome keeps within a total: a success with so much to spare, a failure with nothing. -/
def Covers (budget : Budget α) (total spare : Nat) :
    EStateM.Result (Failure α) (Cursor α) β → Prop
  | .ok _ last => budget.worth last + spare ≤ total
  | .error _ last => budget.worth last ≤ total

end Budget

namespace Reader

/-- With some credit the reader keeps within the worth that it begins with, and leaves credit behind
where it succeeds. -/
def Keeps (budget : Budget α) (credit spare : Nat) (reader : Reader α β) : Prop :=
  ∀ cursor, budget.Covers (budget.worth cursor + credit) spare (reader cursor)

section Steps

variable {budget : Budget α} {credit spare : Nat}

theorem Keeps.bind {between : Nat} {first : Reader α β} {later : β → Reader α γ}
    (firstKeeps : Keeps budget credit between first)
    (laterKeeps : ∀ middle, Keeps budget between spare (later middle)) :
    Keeps budget credit spare (first >>= later) := by
  intro cursor
  have firstCovers := firstKeeps cursor
  refine bind_cases ?_ ?_
  · intro failure last failed
    rw [failed] at firstCovers
    exact firstCovers
  · intro middle last read
    rw [read] at firstCovers
    have laterCovers := laterKeeps middle last
    have passed : budget.worth last + between ≤ budget.worth cursor + credit := firstCovers
    cases outcome : later middle last with
    | ok result after =>
      rw [outcome] at laterCovers
      exact Nat.le_trans laterCovers passed
    | error failure after =>
      rw [outcome] at laterCovers
      exact Nat.le_trans laterCovers passed

theorem Keeps.relaxed {credit' spare' : Nat} {reader : Reader α β}
    (keeps : Keeps budget credit spare reader) (more : credit ≤ credit')
    (less : spare' + credit ≤ spare + credit') : Keeps budget credit' spare' reader := by
  intro cursor
  have covers := keeps cursor
  cases outcome : reader cursor with
  | ok result last =>
    rw [outcome] at covers
    have passed : budget.worth last + spare ≤ budget.worth cursor + credit := covers
    change budget.worth last + spare' ≤ budget.worth cursor + credit'
    omega
  | error failure last =>
    rw [outcome] at covers
    have passed : budget.worth last ≤ budget.worth cursor + credit := covers
    change budget.worth last ≤ budget.worth cursor + credit'
    omega

theorem keeps_pure (less : spare ≤ credit) (result : β) :
    Keeps budget credit spare (pure result) :=
  fun cursor => Nat.add_le_add_left less (budget.worth cursor)

theorem keeps_failWith (failure : Failure α) :
    Keeps budget credit spare (failWith failure : Reader α β) :=
  fun cursor => Nat.le_add_right (budget.worth cursor) credit

theorem keeps_failHere (fault : Fault) : Keeps budget credit spare (failHere fault : Reader α β) :=
  fun cursor => Nat.le_add_right (budget.worth cursor) credit

theorem keeps_front : Keeps budget credit credit front := fun _ => Nat.le_refl _

theorem keeps_allowance : Keeps budget credit credit allowance := fun _ => Nat.le_refl _

theorem keeps_take (spare : Nat) (enough : spare + budget.fee ≤ credit) :
    Keeps budget credit spare take := by
  intro cursor
  have advanced := budget.worth_advanced cursor
  change budget.worth cursor.advanced + spare ≤ budget.worth cursor + credit
  omega

theorem keeps_pay (spare : Nat) (enough : spare ≤ credit + (3 * budget.fee + 1)) :
    Keeps budget credit spare pay := by
  intro cursor
  unfold pay
  split
  · exact keeps_failHere (.tooLong nodeLimit) cursor
  · rename_i left allowanceEq
    have paid := budget.worth_paid allowanceEq
    change budget.worth { cursor with allowance := left } + spare ≤ budget.worth cursor + credit
    omega

theorem keeps_payAndTake (spare : Nat) (enough : spare ≤ credit + (2 * budget.fee + 1)) :
    Keeps budget credit spare payAndTake :=
  (keeps_pay (credit + (3 * budget.fee + 1)) (Nat.le_refl _)).bind fun _ =>
    keeps_take spare (by omega)

theorem keeps_takeClosing (spare : Nat) (enough : spare + budget.fee ≤ credit) :
    Keeps budget credit spare takeClosing := by
  apply keeps_front.bind
  intro token
  cases token.kind with
  | closing => exact (keeps_take spare enough).bind fun _ => keeps_pure (Nat.le_refl _) ()
  | _ => exact keeps_failWith _

end Steps

/-! ### Readers of expressions -/

abbrev Profits (budget : Budget α) (reader : Reader α (Expr α)) : Prop := Keeps budget 0 1 reader

section Expressions

variable {budget : Budget α} {reader : Reader α (Expr α)}

theorem Profits.from (profits : Profits budget reader) (credit : Nat) :
    Keeps budget credit (credit + 1) reader :=
  Keeps.relaxed profits (Nat.zero_le credit) (by omega)

theorem chainFrom_keeps (operator? : Token α → Option Operator) (profits : Profits budget reader)
    (credit rounds : Nat) :
    ∀ left, Keeps budget credit credit (chainFrom operator? reader rounds left) := by
  induction rounds with
  | zero => exact keeps_pure (Nat.le_refl _)
  | succ rounds ih =>
    intro left
    apply keeps_front.bind
    intro token
    cases operator? token with
    | none => exact keeps_pure (Nat.le_refl _) left
    | some operator =>
      apply (keeps_payAndTake credit (by omega)).bind
      intro _
      apply (profits.from credit).bind
      intro right
      exact (ih (.binary operator left right)).relaxed (Nat.le_add_right credit 1) (by omega)

theorem chain_profits (operator? : Token α → Option Operator) (profits : Profits budget reader) :
    Profits budget (chain operator? reader) :=
  Keeps.bind profits fun first =>
    keeps_allowance.bind fun left => chainFrom_keeps operator? profits 1 (left + 1) first

/-- The profit of an argument pays for the comma in front of it. -/
theorem laterArguments_keeps (profits : Profits budget reader) {credit : Nat}
    (enough : budget.fee ≤ credit) (rounds : Nat) :
    Keeps budget credit credit (laterArguments reader rounds) := by
  have feeLe := budget.fee_le
  induction rounds with
  | zero => exact keeps_pure (Nat.le_refl _) []
  | succ rounds ih =>
    apply keeps_front.bind
    intro token
    cases token.kind with
    | comma =>
      apply (keeps_take (credit - budget.fee) (by omega)).bind
      intro _
      apply (profits.from (credit - budget.fee)).bind
      intro next
      have rest : Keeps budget (credit - budget.fee + 1) (credit - budget.fee + 1)
          (laterArguments reader rounds) := ih.relaxed (by omega) (by omega)
      exact rest.bind fun later => keeps_pure (by omega) (next :: later)
    | _ => exact keeps_pure (Nat.le_refl _) []

theorem arguments_keeps (profits : Profits budget reader) {credit : Nat}
    (enough : budget.fee ≤ credit) :
    Keeps budget credit (credit + 1) (arguments reader) := by
  apply (profits.from credit).bind
  intro first
  apply keeps_allowance.bind
  intro left
  have keeps := laterArguments_keeps profits (Nat.le_succ_of_le enough) (left + 1)
  exact keeps.bind fun later => keeps_pure (Nat.le_refl _) (first :: later)

/-- What is left of the payment for the name pays for both parentheses. -/
theorem call_keeps (profits : Profits budget reader) (name : Token α) :
    Keeps budget (2 * budget.fee + 1) 1 (call reader name) := by
  unfold call
  cases Elementary.ofName? name.text with
  | none => exact keeps_failWith _
  | some function =>
    apply (keeps_take (budget.fee + 1) (by omega)).bind
    intro _
    apply (arguments_keeps profits (Nat.le_succ budget.fee)).bind
    intro given
    apply (keeps_takeClosing 1 (by omega)).bind
    intro _
    split
    · exact keeps_pure (Nat.le_refl _) _
    · exact keeps_failWith _

section Levels

variable [Numeral α]

theorem bareName_keeps (name : Token α) {credit spare : Nat} (less : spare ≤ credit) :
    Keeps budget credit spare (bareName name) := by
  unfold bareName
  cases Numeral.constant? (α := α) name.text with
  | some literal => exact keeps_pure less _
  | none =>
    dsimp only
    split
    · exact keeps_failWith _
    · exact keeps_failWith _

theorem named_keeps (profits : Profits budget reader) (name : Token α) :
    Keeps budget (2 * budget.fee + 1) 1 (named reader name) := by
  apply keeps_front.bind
  intro next
  split
  · exact keeps_pure (by omega) _
  · cases next.kind with
    | opening => exact call_keeps profits name
    | _ => exact bareName_keeps name (by omega)

theorem operand_profits (profits : Profits budget reader) : Profits budget (operand reader) := by
  apply (keeps_payAndTake (2 * budget.fee + 1) (by omega)).bind
  intro token
  cases token.kind with
  | number literal => exact keeps_pure (by omega) _
  | name => exact named_keeps profits token
  | opening =>
    apply (profits.from _).bind
    intro group
    exact (keeps_takeClosing 1 (by omega)).bind fun _ => keeps_pure (Nat.le_refl _) group
  | _ => exact keeps_failWith _

variable {inner : Level α}

theorem power_profits (unary : Profits budget inner.unary) (sum : Profits budget inner.sum) :
    Profits budget (power inner) := by
  apply Keeps.bind (operand_profits sum)
  intro base
  apply keeps_front.bind
  intro token
  split
  · apply (keeps_payAndTake 1 (by omega)).bind
    intro _
    exact (unary.from 1).bind fun exponent => keeps_pure (by omega) _
  · exact keeps_pure (Nat.le_refl _) base

theorem unary_profits (unary : Profits budget inner.unary) (sum : Profits budget inner.sum) :
    Profits budget (Reader.unary inner) := by
  apply keeps_front.bind
  intro token
  split
  · apply (keeps_payAndTake 1 (by omega)).bind
    intro _
    exact (unary.from 1).bind fun negated => keeps_pure (by omega) _
  · exact power_profits unary sum

theorem level_profits (budget : Budget α) (limit : Nat) :
    Profits budget (level limit).unary ∧ Profits budget (level limit).sum := by
  induction limit with
  | zero => exact ⟨keeps_failHere _, keeps_failHere _⟩
  | succ limit ih =>
    have unary := unary_profits ih.1 ih.2
    exact ⟨unary, chain_profits additive? (chain_profits multiplicative? unary)⟩

theorem formula_keeps (budget : Budget α) : Keeps budget 0 0 (formula (α := α)) := by
  apply Keeps.bind (level_profits budget depthLimit).2
  intro tree
  apply keeps_front.bind
  intro next
  split
  · exact keeps_pure (Nat.zero_le 1) tree
  · exact keeps_failWith _

end Levels

end Expressions

section Repetitions

variable {operator? : Token α → Option Operator} {reader : Reader α (Expr α)}

theorem bind_congr_ok {first : Reader α β} {later later' : β → Reader α γ} {cursor : Cursor α}
    (same : ∀ middle between, first cursor = .ok middle between →
      later middle between = later' middle between) :
    (first >>= later) cursor = (first >>= later') cursor := by
  change EStateM.bind first later cursor = EStateM.bind first later' cursor
  unfold EStateM.bind
  cases outcome : first cursor with
  | ok middle between => exact same middle between outcome
  | error failure last => rfl

theorem bind_congr_first {first first' : Reader α β} {cursor : Cursor α}
    (same : first cursor = first' cursor) (later : β → Reader α γ) :
    (first >>= later) cursor = (first' >>= later) cursor := by
  change EStateM.bind first later cursor = EStateM.bind first' later cursor
  unfold EStateM.bind
  rw [same]

theorem allowance_of_keeps {credit spare : Nat} {first : Reader α β} {cursor last : Cursor α}
    {result : β} (keeps : Keeps (.ofAllowance α) credit spare first)
    (read : first cursor = .ok result last) :
    last.allowance + spare ≤ cursor.allowance + credit := by
  have covers := keeps cursor
  rw [read] at covers
  exact covers

theorem chainFrom_rounds (profits : Profits (.ofAllowance α) reader) (rounds : Nat) :
    ∀ (rounds' : Nat) (left : Expr α) (cursor : Cursor α),
      cursor.allowance < rounds → cursor.allowance < rounds' →
        chainFrom operator? reader rounds left cursor =
          chainFrom operator? reader rounds' left cursor := by
  induction rounds with
  | zero =>
    intro rounds' left cursor enough
    omega
  | succ rounds ih =>
    intro rounds' left cursor enough enough'
    obtain ⟨fewer, rfl⟩ := Nat.exists_eq_succ_of_ne_zero (Nat.ne_zero_of_lt enough')
    rw [chainFrom, chainFrom, front_bind, front_bind]
    cases operator? cursor.front with
    | none => rfl
    | some operator =>
      apply bind_congr_ok
      intro _ afterSign signRead
      apply bind_congr_ok
      intro right afterRight rightRead
      have paid := allowance_of_keeps (keeps_payAndTake 1 (Nat.le_refl _)) signRead
      have rightPaid := allowance_of_keeps profits rightRead
      exact ih fewer _ afterRight (by omega) (by omega)

theorem laterArguments_rounds (profits : Profits (.ofAllowance α) reader) (rounds : Nat) :
    ∀ (rounds' : Nat) (cursor : Cursor α),
      cursor.allowance < rounds → cursor.allowance < rounds' →
        laterArguments reader rounds cursor = laterArguments reader rounds' cursor := by
  induction rounds with
  | zero =>
    intro rounds' cursor enough
    omega
  | succ rounds ih =>
    intro rounds' cursor enough enough'
    obtain ⟨fewer, rfl⟩ := Nat.exists_eq_succ_of_ne_zero (Nat.ne_zero_of_lt enough')
    by_cases separates : cursor.front.kind = .comma
    · rw [laterArguments_comma separates, laterArguments_comma separates]
      apply bind_congr_ok
      intro _ afterComma commaRead
      apply bind_congr_ok
      intro next afterNext nextRead
      have kept := allowance_of_keeps (keeps_take 0 (Nat.le_refl 0)) commaRead
      have nextPaid := allowance_of_keeps profits nextRead
      have same := ih fewer afterNext (by omega) (by omega)
      exact bind_congr_first same _
    · rw [laterArguments_other separates, laterArguments_other separates]

def restOfChain (operator? : Token α → Option Operator) (operand : Reader α (Expr α))
    (left : Expr α) : Reader α (Expr α) := do
  chainFrom operator? operand ((← allowance) + 1) left

def restOfArguments (argument : Reader α (Expr α)) : Reader α (List (Expr α)) := do
  laterArguments argument ((← allowance) + 1)

/-- A chain is its first operand and then a loop for as long as operators of its kind follow. -/
structure ChainLoops (operator? : Token α → Option Operator) (operand : Reader α (Expr α)) :
    Prop where
  begins : chain operator? operand = operand >>= restOfChain operator? operand
  repeats (left : Expr α) : restOfChain operator? operand left = (do
    match operator? (← front) with
    | none => pure left
    | some operator =>
      let _ ← payAndTake
      let right ← operand
      restOfChain operator? operand (.binary operator left right))

structure ArgumentsLoop (argument : Reader α (Expr α)) : Prop where
  begins : arguments argument = (do
    let first ← argument
    return first :: (← restOfArguments argument))
  repeats : restOfArguments argument = (do
    match (← front).kind with
    | .comma =>
      let _ ← take
      let next ← argument
      return next :: (← restOfArguments argument)
    | _ => pure [])

theorem chain_loops (profits : Profits (.ofAllowance α) reader) :
    ChainLoops operator? reader where
  begins := rfl
  repeats left := by
    funext cursor
    rw [restOfChain, allowance_bind, chainFrom, front_bind, front_bind]
    cases operator? cursor.front with
    | none => rfl
    | some operator =>
      apply bind_congr_ok
      intro _ afterSign signRead
      apply bind_congr_ok
      intro right afterRight rightRead
      have paid := allowance_of_keeps (keeps_payAndTake 1 (Nat.le_refl _)) signRead
      have rightPaid := allowance_of_keeps profits rightRead
      exact chainFrom_rounds profits _ _ _ afterRight (by omega) (Nat.lt_succ_self _)

theorem arguments_loop (profits : Profits (.ofAllowance α) reader) : ArgumentsLoop reader where
  begins := rfl
  repeats := by
    funext cursor
    rw [restOfArguments, allowance_bind, front_bind]
    by_cases separates : cursor.front.kind = .comma
    · rw [laterArguments_comma separates]
      simp only [separates]
      apply bind_congr_ok
      intro _ afterComma commaRead
      apply bind_congr_ok
      intro next afterNext nextRead
      have kept := allowance_of_keeps (keeps_take 0 (Nat.le_refl 0)) commaRead
      have nextPaid := allowance_of_keeps profits nextRead
      have same := laterArguments_rounds profits cursor.allowance (afterNext.allowance + 1)
        afterNext (by omega) (Nat.lt_succ_self _)
      exact bind_congr_first same _
    · rw [laterArguments_other separates]
      cases kindEq : cursor.front.kind with
      | comma => exact absurd kindEq separates
      | _ => rfl

end Repetitions

end Reader

end Tangency
