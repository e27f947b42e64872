/-
How long a formula may be.

Every operator and operand is paid for when it is read, and so is every parenthesised group, which
leaves no node in the tree.  A formula within the levels is therefore read exactly if the nodes of
its tree and its groups together are no more than the limit, and is otherwise refused as too long at
one of its tokens.  Without groups the limit is one on the nodes of the tree; with them it is not,
and parentheses alone make a small tree too long.

A run short of allowance is compared with a run over the same tokens that can pay for everything.
-/

import Tangency.Proofs.PairedReading
import Tangency.Proofs.RoundTrip

namespace Tangency

section Shortage

variable {α : Type}

/-- Over the same tokens the first run has no more allowance than the second, and only for want of
it may it do otherwise. -/
def Pairing.shortage (tokens : List (Token α)) : Pairing α where
  related left right :=
    List.Forall₂ (fun token token' => token = token' ∧ token ∈ tokens) left.tokens right.tokens ∧
      left.allowance ≤ right.allowance
  places := Eq
  excused failure :=
    ∃ token ∈ tokens, failure = .malformed token.position (.tooLong Reader.nodeLimit)
  front start := by
    cases start.1 with
    | cons same later =>
      rw [same.1]
      exact ⟨rfl, rfl, rfl⟩
  advanced start := by
    refine ⟨Cursor.forall₂_advanced (fun same => congrArg Token.isFinish same.1) start.1, ?_⟩
    rw [Cursor.allowance_advanced, Cursor.allowance_advanced]
    exact start.2
  paid {left right rest} start enough := by
    have fewer := start.2
    refine ⟨right.allowance - 1, by omega, start.1, ?_⟩
    dsimp only
    omega
  exhausted start empty := by
    cases start.1 with
    | cons same later => exact .inr ⟨_, same.2, rfl⟩

variable [Numeral α]

namespace Phrase

theorem read_iff_nodes_le (phrase : Phrase α (.expr .sum)) {last : Token α}
    (finishes : last.isFinish = true) (accepted : phrase.CallsAccepted)
    (shallow : phrase.depth ≤ Reader.depthLimit) :
    Expr.ofTokens? (phrase.tokens ++ [last]) = .ok phrase.meaning ↔
      phrase.nodes ≤ Reader.nodeLimit := by
  rw [Expr.ofTokens?_eq_ok_iff phrase.goesOn finishes]
  constructor
  · rintro ⟨found, sameTokens, -, -, enough, -⟩
    rw [← Phrase.eq_of_tokens_eq sameTokens]
    exact enough
  · intro enough
    exact ⟨phrase, rfl, rfl, accepted, enough, shallow⟩

theorem tooLong_of_nodes (phrase : Phrase α (.expr .sum)) {last : Token α}
    (finishes : last.isFinish = true) (accepted : phrase.CallsAccepted)
    (shallow : phrase.depth ≤ Reader.depthLimit) (exceeded : Reader.nodeLimit < phrase.nodes) :
    ∃ token ∈ phrase.tokens ++ [last], Expr.ofTokens? (phrase.tokens ++ [last]) =
      .error (.malformed token.position (.tooLong Reader.nodeLimit)) := by
  have notRead : Expr.ofTokens? (phrase.tokens ++ [last]) ≠ .ok phrase.meaning := by
    intro read
    exact absurd ((phrase.read_iff_nodes_le finishes accepted shallow).mp read)
      (Nat.not_le_of_lt exceeded)
  obtain ⟨first, behind, tokensEq⟩ : ∃ first behind, phrase.tokens ++ [last] = first :: behind :=
    List.exists_cons_of_ne_nil (List.append_ne_nil_of_right_ne_nil _ (List.cons_ne_nil _ _))
  have paidRead := Expr.formula_of_phrase phrase tokensEq finishes accepted shallow
    (Nat.le_refl phrase.nodes)
  have related : (Pairing.shortage (first :: behind)).related
      ⟨first, behind, Reader.nodeLimit, 0⟩ ⟨first, behind, phrase.nodes, 0⟩ :=
    ⟨List.forall₂_same.mpr fun token member => ⟨rfl, member⟩, Nat.le_of_lt exceeded⟩
  have outcomes := Reader.formula_pairs _ _ _ related
  rw [paidRead] at outcomes
  rw [tokensEq, Expr.ofTokens?, Expr.readTokens] at notRead ⊢
  generalize Reader.formula (α := α) ⟨first, behind, Reader.nodeLimit, 0⟩ = outcome
    at outcomes notRead ⊢
  cases outcomes with
  | ok agrees related =>
    subst agrees
    exact absurd rfl notRead
  | excused excuse last other =>
    obtain ⟨token, member, rfl⟩ := excuse
    exact ⟨token, member, rfl⟩

end Phrase

end Shortage

section Parentheses

variable {α : Type} [Numeral α]

def enclosedPhrase : Nat → Nat → Phrase α (.expr .operand)
  | 0, position => .var ⟨.name, Expr.variableName, position⟩ rfl rfl
  | pairs + 1, position =>
    .group ⟨.opening, "(", position⟩ rfl (.sum (.product
      (.unsigned (.unraised (enclosedPhrase pairs (position + 1)))) .noLink) .noLink)
      ⟨.closing, ")", position + 2 * pairs + 2⟩ rfl

theorem enclosedPhrase_meaning (pairs position : Nat) :
    (enclosedPhrase (α := α) pairs position).meaning = .var := by
  induction pairs generalizing position with
  | zero => rfl
  | succ pairs ih => exact ih (position + 1)

theorem enclosedPhrase_accepted (pairs position : Nat) :
    (enclosedPhrase (α := α) pairs position).CallsAccepted := by
  induction pairs generalizing position with
  | zero => exact trivial
  | succ pairs ih => exact ⟨⟨ih (position + 1), trivial⟩, trivial⟩

theorem enclosedPhrase_extent (pairs position : Nat) :
    (enclosedPhrase (α := α) pairs position).extent = ⟨pairs + 1, pairs + 1⟩ := by
  induction pairs generalizing position with
  | zero => rfl
  | succ pairs ih =>
    have inner := (Extent.joined_none _).trans ((Extent.joined_none _).trans (ih (position + 1)))
    exact (Phrase.extent_group _ _ _ _ _).trans (congrArg Extent.deeper inner)

theorem enclosedPhrase_nodes (pairs position : Nat) :
    (enclosedPhrase (α := α) pairs position).nodes = pairs + 1 :=
  congrArg Extent.nodes (enclosedPhrase_extent pairs position)

theorem enclosedPhrase_depth (pairs position : Nat) :
    (enclosedPhrase (α := α) pairs position).depth = pairs + 1 :=
  congrArg Extent.depth (enclosedPhrase_extent pairs position)

def enclosedSum (pairs : Nat) : Phrase α (.expr .sum) :=
  .sum (.product (.unsigned (.unraised (enclosedPhrase pairs 0))) .noLink)
    (.link ⟨.operator '+', "+", 2 * pairs + 1⟩ .add rfl
      (.product (.unsigned (.unraised (enclosedPhrase pairs (2 * pairs + 2)))) .noLink) .noLink)

theorem enclosedSum_meaning (pairs : Nat) :
    (enclosedSum (α := α) pairs).meaning = .binary .add .var .var :=
  congrArg₂ (Expr.binary .add) (enclosedPhrase_meaning pairs 0)
    (enclosedPhrase_meaning pairs (2 * pairs + 2))

theorem enclosedSum_accepted (pairs : Nat) : (enclosedSum (α := α) pairs).CallsAccepted :=
  ⟨⟨enclosedPhrase_accepted pairs 0, trivial⟩,
    ⟨enclosedPhrase_accepted pairs (2 * pairs + 2), trivial⟩, trivial⟩

theorem enclosedSum_nodes (pairs : Nat) : (enclosedSum (α := α) pairs).nodes = 2 * pairs + 3 := by
  have left := enclosedPhrase_nodes (α := α) pairs 0
  have right := enclosedPhrase_nodes (α := α) pairs (2 * pairs + 2)
  change (enclosedPhrase pairs 0).nodes + (1 + (enclosedPhrase pairs (2 * pairs + 2)).nodes) = _
  omega

theorem enclosedSum_depth (pairs : Nat) : (enclosedSum (α := α) pairs).depth = pairs + 1 := by
  have left := enclosedPhrase_depth (α := α) pairs 0
  have right := enclosedPhrase_depth (α := α) pairs (2 * pairs + 2)
  change max (max (enclosedPhrase pairs 0).depth 0)
    (max (max (enclosedPhrase pairs (2 * pairs + 2)).depth 0) 0) = _
  omega

end Parentheses

/-- A formula within the levels whose calls are accepted is read exactly if the nodes of its tree
and its groups together are no more than the limit, and is otherwise too long at one of its
tokens. -/
theorem length_limit_counts_groups {α : Type} [Numeral α] (phrase : Phrase α (.expr .sum))
    (last : Token α) (finishes : last.isFinish = true) (accepted : phrase.CallsAccepted)
    (shallow : phrase.depth ≤ Reader.depthLimit) :
    (Expr.ofTokens? (phrase.tokens ++ [last]) = .ok phrase.meaning ↔
      phrase.meaning.size + phrase.groups ≤ Reader.nodeLimit) ∧
    (Reader.nodeLimit < phrase.meaning.size + phrase.groups →
      ∃ token ∈ phrase.tokens ++ [last], Expr.ofTokens? (phrase.tokens ++ [last]) =
        .error (.malformed token.position (.tooLong Reader.nodeLimit))) := by
  have counted : phrase.meaning.size + phrase.groups = phrase.nodes := phrase.accounted
  rw [counted]
  exact ⟨phrase.read_iff_nodes_le finishes accepted shallow,
    phrase.tooLong_of_nodes finishes accepted shallow⟩

/-- With 254 pairs of parentheses round each variable, `x + x` is just read. -/
theorem length_limit_counts_groups_enclosedSum :
    (⟨.finish, "", 1019⟩ : Token Binary64).isFinish = true ∧
      (enclosedSum (α := Binary64) 254).CallsAccepted ∧
      (enclosedSum (α := Binary64) 254).depth ≤ Reader.depthLimit ∧
      Expr.ofTokens? ((enclosedSum 254).tokens ++ [(⟨.finish, "", 1019⟩ : Token Binary64)]) =
        .ok (.binary .add .var .var) := by
  have finishes : (⟨.finish, "", 1019⟩ : Token Binary64).isFinish = true := rfl
  have accepted := enclosedSum_accepted (α := Binary64) 254
  have shallow : (enclosedSum (α := Binary64) 254).depth ≤ Reader.depthLimit := by
    rw [enclosedSum_depth]
    decide
  refine ⟨finishes, accepted, shallow, ?_⟩
  have limit := (length_limit_counts_groups (enclosedSum 254) _ finishes accepted shallow).1
  rw [enclosedSum_meaning] at limit
  refine limit.mpr ?_
  have counted : (enclosedSum (α := Binary64) 254).meaning.size + (enclosedSum 254).groups =
    (enclosedSum (α := Binary64) 254).nodes := (enclosedSum 254).accounted
  rw [enclosedSum_meaning, enclosedSum_nodes] at counted
  rw [counted]
  decide

/-- One more pair of parentheses makes the same three nodes too long, though not too deep. -/
theorem parentheses_are_too_long :
    (enclosedSum (α := Binary64) 255).CallsAccepted ∧
      (enclosedSum (α := Binary64) 255).depth ≤ Reader.depthLimit ∧
      (enclosedSum (α := Binary64) 255).meaning.size = 3 ∧
      ∃ position, Expr.ofTokens?
        ((enclosedSum 255).tokens ++ [(⟨.finish, "", 1023⟩ : Token Binary64)]) =
          .error (.malformed position (.tooLong Reader.nodeLimit)) := by
  have accepted := enclosedSum_accepted (α := Binary64) 255
  have shallow : (enclosedSum (α := Binary64) 255).depth ≤ Reader.depthLimit := by
    rw [enclosedSum_depth]
    decide
  have exceeded : Reader.nodeLimit < (enclosedSum (α := Binary64) 255).nodes := by
    rw [enclosedSum_nodes]
    decide
  refine ⟨accepted, shallow, ?_, ?_⟩
  · rw [enclosedSum_meaning]
    rfl
  · obtain ⟨token, -, refused⟩ := (enclosedSum 255).tooLong_of_nodes
      (show (⟨.finish, "", 1023⟩ : Token Binary64).isFinish = true from rfl) accepted shallow
      exceeded
    exact ⟨token.position, refused⟩

end Tangency
