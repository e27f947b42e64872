/-
How a cursor moves.

A cursor passes some tokens and pays for some nodes; together with the number of
tokens taken this fixes where it ends.  The basic steps of a reader are described by
what they pass.  `finish` is never passed, so a cursor over a list that ends in its
only `finish` stays on such a list.
-/

import Tangency.Expr.Reading

namespace Tangency

variable {α β γ : Type}

inductive Closed : List (Token α) → Prop where
  | last {token : Token α} (finishes : token.isFinish = true) : Closed [token]
  | cons {token : Token α} {later : List (Token α)} (goesOn : token.isFinish = false)
      (closed : Closed later) : Closed (token :: later)

theorem Closed.append_singleton {body : List (Token α)} {last : Token α}
    (goOn : ∀ token ∈ body, token.isFinish = false) (finishes : last.isFinish = true) :
    Closed (body ++ [last]) := by
  induction body with
  | nil => exact .last finishes
  | cons token body ih =>
    have tail := ih fun other member => goOn other (List.mem_cons_of_mem token member)
    exact .cons (goOn token List.mem_cons_self) tail

theorem Closed.of_append {first : Token α} {front later : List (Token α)}
    (closed : Closed (front ++ first :: later)) : Closed (first :: later) := by
  induction front with
  | nil => exact closed
  | cons token front ih =>
    rw [List.cons_append] at closed
    generalize tailEq : front ++ first :: later = tail at closed
    cases closed with
    | last => exact absurd tailEq (List.append_ne_nil_of_right_ne_nil front (List.cons_ne_nil _ _))
    | cons goesOn closed =>
      rw [← tailEq] at closed
      exact ih closed

theorem Closed.eq_nil {token : Token α} {later : List (Token α)} (closed : Closed (token :: later))
    (finishes : token.isFinish = true) : later = [] := by
  cases closed with
  | last => rfl
  | cons goesOn closed =>
    rw [finishes] at goesOn
    cases goesOn

theorem Closed.exists_cons {token : Token α} {later : List (Token α)}
    (closed : Closed (token :: later)) (goesOn : token.isFinish = false) :
    ∃ next others, later = next :: others := by
  cases closed with
  | last finishes =>
    rw [finishes] at goesOn
    cases goesOn
  | cons goesOn closed =>
    cases closed with
    | last => exact ⟨_, _, rfl⟩
    | cons => exact ⟨_, _, rfl⟩

namespace Cursor

def tokens (cursor : Cursor α) : List (Token α) := cursor.front :: cursor.behind

/-- From one cursor to another some tokens are taken and some nodes are paid for. -/
structure Passes (cursor last : Cursor α) (passed : List (Token α)) (nodes : Nat) : Prop where
  tokens_eq : cursor.tokens = passed ++ last.tokens
  allowance_eq : cursor.allowance = last.allowance + nodes
  taken_eq : last.taken = cursor.taken + passed.length

namespace Passes

theorem refl (cursor : Cursor α) : cursor.Passes cursor [] 0 := ⟨rfl, rfl, rfl⟩

theorem trans {cursor between last : Cursor α} {passed passed' : List (Token α)}
    {nodes nodes' : Nat} (first : cursor.Passes between passed nodes)
    (second : between.Passes last passed' nodes') :
    cursor.Passes last (passed ++ passed') (nodes + nodes') where
  tokens_eq := by rw [first.tokens_eq, second.tokens_eq, List.append_assoc]
  allowance_eq := by
    rw [first.allowance_eq, second.allowance_eq]
    omega
  taken_eq := by
    rw [second.taken_eq, first.taken_eq, List.length_append]
    omega

theorem split {cursor last : Cursor α} (passed passed' : List (Token α)) (nodes nodes' : Nat)
    (whole : cursor.Passes last (passed ++ passed') (nodes + nodes')) :
    ∃ between, cursor.Passes between passed nodes ∧ between.Passes last passed' nodes' := by
  have allowance := whole.allowance_eq
  have taken := whole.taken_eq
  rw [List.length_append] at taken
  have left : ∃ next others, passed' ++ last.tokens = next :: others := by
    cases passed' with
    | nil => exact ⟨last.front, last.behind, rfl⟩
    | cons token later => exact ⟨token, later ++ last.tokens, rfl⟩
  obtain ⟨next, others, leftEq⟩ := left
  refine ⟨⟨next, others, cursor.allowance - nodes, cursor.taken + passed.length⟩,
    ⟨?_, ?_, rfl⟩, ⟨?_, ?_, ?_⟩⟩
  · change cursor.tokens = passed ++ next :: others
    rw [whole.tokens_eq, List.append_assoc, leftEq]
  · change cursor.allowance = cursor.allowance - nodes + nodes
    omega
  · change next :: others = passed' ++ last.tokens
    exact leftEq.symm
  · change cursor.allowance - nodes = last.allowance + nodes'
    omega
  · change last.taken = cursor.taken + passed.length + passed'.length
    omega

theorem eq_of_nil {cursor last : Cursor α} (passes : cursor.Passes last [] 0) : cursor = last := by
  obtain ⟨front, behind, allowance, taken⟩ := cursor
  obtain ⟨front', behind', allowance', taken'⟩ := last
  obtain ⟨tokensEq, allowanceEq, takenEq⟩ := passes
  obtain ⟨rfl, rfl⟩ := List.cons.inj tokensEq
  obtain rfl : allowance = allowance' := allowanceEq
  obtain rfl : taken' = taken := takenEq
  rfl

theorem front_eq {cursor last : Cursor α} {token : Token α} {later : List (Token α)} {nodes : Nat}
    (passes : cursor.Passes last (token :: later) nodes) : cursor.front = token :=
  (List.cons.inj passes.tokens_eq).1

theorem closed {cursor last : Cursor α} {passed : List (Token α)} {nodes : Nat}
    (passes : cursor.Passes last passed nodes) (closed : Closed cursor.tokens) :
    Closed last.tokens := by
  rw [passes.tokens_eq] at closed
  exact closed.of_append

end Passes

theorem passes_advanced {cursor : Cursor α} (closed : Closed cursor.tokens)
    (goesOn : cursor.front.isFinish = false) :
    cursor.Passes cursor.advanced [cursor.front] 0 := by
  obtain ⟨next, others, behindEq⟩ := closed.exists_cons goesOn
  unfold advanced
  rw [if_neg (by simp [goesOn]), behindEq]
  refine ⟨?_, rfl, rfl⟩
  rw [tokens, behindEq]
  rfl

theorem advanced_eq {cursor last : Cursor α} {token : Token α}
    (passes : cursor.Passes last [token] 0) (goesOn : token.isFinish = false) :
    cursor.advanced = last := by
  obtain ⟨front, behind, allowance, taken⟩ := cursor
  obtain ⟨front', behind', allowance', taken'⟩ := last
  obtain ⟨tokensEq, allowanceEq, takenEq⟩ := passes
  obtain ⟨rfl, rfl⟩ := List.cons.inj tokensEq
  obtain rfl : allowance = allowance' := allowanceEq
  obtain rfl : taken' = taken + 1 := takenEq
  unfold advanced
  rw [if_neg (by simp [goesOn])]
  rfl

end Cursor

/-! ### Steps of a reader -/

namespace Reader

theorem bind_eq_ok_iff {first : Reader α β} {later : β → Reader α γ} {cursor last : Cursor α}
    {result : γ} :
    (first >>= later) cursor = .ok result last ↔
      ∃ middle between, first cursor = .ok middle between ∧
        later middle between = .ok result last := by
  change EStateM.bind first later cursor = .ok result last ↔ _
  unfold EStateM.bind
  cases first cursor with
  | ok middle between =>
    constructor
    · intro laterOk
      exact ⟨middle, between, rfl, laterOk⟩
    · rintro ⟨_, _, same, laterOk⟩
      cases same
      exact laterOk
  | error failure between =>
    constructor
    · intro impossible
      cases impossible
    · rintro ⟨_, _, impossible, _⟩
      cases impossible

theorem bind_of_ok {first : Reader α β} {later : β → Reader α γ} {cursor between : Cursor α}
    {middle : β} (firstOk : first cursor = .ok middle between) :
    (first >>= later) cursor = later middle between := by
  change EStateM.bind first later cursor = _
  unfold EStateM.bind
  rw [firstOk]

theorem front_bind (later : Token α → Reader α γ) (cursor : Cursor α) :
    (front >>= later) cursor = later cursor.front cursor := rfl

theorem allowance_bind (later : Nat → Reader α γ) (cursor : Cursor α) :
    (allowance >>= later) cursor = later cursor.allowance cursor := rfl

theorem take_of_passes {cursor last : Cursor α} {token : Token α}
    (passes : cursor.Passes last [token] 0) (goesOn : token.isFinish = false) :
    take cursor = .ok token last := by
  rw [take, passes.front_eq, Cursor.advanced_eq passes goesOn]

theorem payAndTake_sound {cursor last : Cursor α} {token : Token α} (closed : Closed cursor.tokens)
    (read : payAndTake cursor = .ok token last) :
    cursor.front = token ∧ (token.isFinish = false → cursor.Passes last [token] 1) := by
  obtain ⟨_, paid, payOk, takeOk⟩ := bind_eq_ok_iff.mp read
  unfold pay at payOk
  split at payOk
  · cases payOk
  · rename_i left allowanceEq
    cases payOk
    cases takeOk
    refine ⟨rfl, fun goesOn => ?_⟩
    have passes := Cursor.passes_advanced (show Closed (Cursor.tokens ⟨_, _, left, _⟩) from closed)
      goesOn
    refine ⟨passes.tokens_eq, ?_, passes.taken_eq⟩
    rw [allowanceEq]
    exact congrArg (· + 1) passes.allowance_eq

theorem payAndTake_of_passes {cursor last : Cursor α} {token : Token α}
    (passes : cursor.Passes last [token] 1) (goesOn : token.isFinish = false) :
    payAndTake cursor = .ok token last := by
  have allowanceEq : cursor.allowance = last.allowance + 1 := passes.allowance_eq
  have paid : pay cursor = .ok () { cursor with allowance := last.allowance } := by
    rw [pay, allowanceEq]
  rw [payAndTake, bind_of_ok paid]
  exact take_of_passes ⟨passes.tokens_eq, rfl, passes.taken_eq⟩ goesOn

theorem isFinish_of_kind {token : Token α} {kind : TokenKind α} (isKind : token.kind = kind)
    (other : kind ≠ .finish) : token.isFinish = false := by
  unfold Token.isFinish
  split
  · rename_i finishes
    exact absurd (isKind.symm.trans finishes) other
  · rfl

theorem takeClosing_eq {cursor : Cursor α} (closes : cursor.front.kind = .closing) :
    takeClosing cursor = .ok () cursor.advanced := by
  rw [takeClosing, front_bind]
  simp only [closes]
  rfl

theorem closing_of_takeClosing {cursor last : Cursor α} (read : takeClosing cursor = .ok () last) :
    cursor.front.kind = .closing := by
  rw [takeClosing, front_bind] at read
  cases kindEq : cursor.front.kind <;> simp only [kindEq] at read
  case closing => rfl
  all_goals cases read

theorem takeClosing_sound {cursor last : Cursor α} (closed : Closed cursor.tokens)
    (read : takeClosing cursor = .ok () last) :
    ∃ closing : Token α, closing.kind = .closing ∧ cursor.Passes last [closing] 0 := by
  have closes := closing_of_takeClosing read
  rw [takeClosing_eq closes] at read
  cases read
  exact ⟨cursor.front, closes, Cursor.passes_advanced closed (isFinish_of_kind closes (by simp))⟩

theorem takeClosing_of_passes {cursor last : Cursor α} {closing : Token α}
    (passes : cursor.Passes last [closing] 0) (closes : closing.kind = .closing) :
    takeClosing cursor = .ok () last := by
  rw [takeClosing_eq (passes.front_eq ▸ closes),
    Cursor.advanced_eq passes (isFinish_of_kind closes (by simp))]

end Reader

end Tangency
