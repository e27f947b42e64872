/-
Reading any list of tokens, one that no scan returns among them.

Readers look at the token at hand and at the allowance, and go on by taking a token or paying for a
node.  So two cursors that these steps keep indistinguishable are read alike: nothing behind the
first `finish` is read, and without one a formula never ends.
-/

import Tangency.Proofs.PairedReading
import Tangency.Proofs.RoundTrip

namespace Tangency

variable {α β : Type}

/-- No step of a reader tells cursors of the relation apart or leads out of it. -/
structure Lockstep (related : Cursor α → Cursor α → Prop) : Prop where
  front_eq {left right : Cursor α} : related left right → left.front = right.front
  allowance_eq {left right : Cursor α} : related left right → left.allowance = right.allowance
  advanced {left right : Cursor α} : related left right → related left.advanced right.advanced
  paid {left right : Cursor α} (rest : Nat) : related left right →
    related { left with allowance := rest } { right with allowance := rest }

inductive Alike (related : Cursor α → Cursor α → Prop) :
    EStateM.Result (Failure α) (Cursor α) β → EStateM.Result (Failure α) (Cursor α) β → Prop where
  | ok (result : β) {left right : Cursor α} (stillRelated : related left right) :
      Alike related (.ok result left) (.ok result right)
  | error (failure : Failure α) {left right : Cursor α} (stillRelated : related left right) :
      Alike related (.error failure left) (.error failure right)

namespace Reader

def ReadsAlike (related : Cursor α → Cursor α → Prop) (reader : Reader α β) : Prop :=
  ∀ left right, related left right → Alike related (reader left) (reader right)

end Reader

section Lockstep

variable {related : Cursor α → Cursor α → Prop}

/-- Cursors that no step tells apart stand on equal tokens and run out of allowance together. -/
def Lockstep.pairing (lockstep : Lockstep related) : Pairing α where
  related := related
  places := Eq
  excused _ := False
  front start := by
    rw [lockstep.front_eq start]
    exact ⟨rfl, rfl, rfl⟩
  advanced := lockstep.advanced
  paid start enough := ⟨_, (lockstep.allowance_eq start).symm.trans enough, lockstep.paid _ start⟩
  exhausted start empty := .inl ((lockstep.allowance_eq start).symm.trans empty)

theorem Lockstep.alike (lockstep : Lockstep related)
    {outcome outcome' : EStateM.Result (Failure α) (Cursor α) β}
    (ends : lockstep.pairing.Outcome Eq outcome outcome') : Alike related outcome outcome' := by
  cases ends with
  | ok agrees stillRelated =>
    subst agrees
    exact .ok _ stillRelated
  | error same stillRelated =>
    rw [Failure.Corresponds.eq same]
    exact .error _ stillRelated
  | excused excuse => exact excuse.elim

theorem Reader.formula_readsAlike [Numeral α] (lockstep : Lockstep related) :
    ReadsAlike related (formula (α := α)) :=
  fun left right start => lockstep.alike (formula_pairs lockstep.pairing left right start)

end Lockstep

/-- Token lists with the same tokens up to the first `finish`. -/
inductive SameToFinish : List (Token α) → List (Token α) → Prop where
  | finish {last : Token α} (finishes : last.isFinish = true) (after after' : List (Token α)) :
      SameToFinish (last :: after) (last :: after')
  | cons (token : Token α) {later later' : List (Token α)} (same : SameToFinish later later') :
      SameToFinish (token :: later) (token :: later')

theorem SameToFinish.of_append (body : List (Token α)) {last : Token α}
    (finishes : last.isFinish = true) (after after' : List (Token α)) :
    SameToFinish (body ++ last :: after) (body ++ last :: after') := by
  induction body with
  | nil => exact .finish finishes after after'
  | cons token body ih => exact .cons token ih

namespace Cursor

structure SameToFinish (left right : Cursor α) : Prop where
  tokens : Tangency.SameToFinish left.tokens right.tokens
  allowance_eq : left.allowance = right.allowance
  taken_eq : left.taken = right.taken

theorem SameToFinish.front_eq {left right : Cursor α} (same : left.SameToFinish right) :
    left.front = right.front := by
  obtain ⟨front, behind, allowance, taken⟩ := left
  obtain ⟨front', behind', allowance', taken'⟩ := right
  cases same.tokens with
  | finish => rfl
  | cons => rfl

/-- A cursor at `finish` stays, so the tokens behind it are not reached. -/
theorem SameToFinish.advanced {left right : Cursor α} (same : left.SameToFinish right) :
    left.advanced.SameToFinish right.advanced := by
  obtain ⟨front, behind, allowance, taken⟩ := left
  obtain ⟨front', behind', allowance', taken'⟩ := right
  obtain ⟨tokens, allowanceEq, takenEq⟩ := same
  obtain rfl : allowance = allowance' := allowanceEq
  obtain rfl : taken = taken' := takenEq
  generalize leftEq : Cursor.tokens ⟨front, behind, allowance, taken⟩ = leftTokens at tokens
  generalize rightEq : Cursor.tokens ⟨front', behind', allowance, taken⟩ = rightTokens at tokens
  cases tokens with
  | finish finishes after after' =>
    cases leftEq
    cases rightEq
    simp only [Cursor.advanced, finishes, if_true]
    exact ⟨.finish finishes behind behind', rfl, rfl⟩
  | cons token later =>
    cases leftEq
    cases rightEq
    by_cases finishes : front.isFinish = true
    · simp only [Cursor.advanced, finishes, if_true]
      exact ⟨.cons front later, rfl, rfl⟩
    · simp only [Cursor.advanced, if_neg finishes]
      cases later with
      | finish nextFinishes after after' => exact ⟨.finish nextFinishes after after', rfl, rfl⟩
      | cons next others => exact ⟨.cons next others, rfl, rfl⟩

theorem lockstep_sameToFinish : Lockstep (α := α) SameToFinish where
  front_eq same := same.front_eq
  allowance_eq same := same.allowance_eq
  advanced same := same.advanced
  paid _ same := ⟨same.tokens, rfl, same.taken_eq⟩

def NeverFinishes (cursor : Cursor α) : Prop := ∀ token ∈ cursor.tokens, token.isFinish = false

theorem NeverFinishes.advanced {cursor : Cursor α} (never : cursor.NeverFinishes) :
    cursor.advanced.NeverFinishes := by
  unfold Cursor.advanced
  split
  · exact never
  · split
    · exact never
    · rename_i next behind behindEq
      intro token member
      refine never token (List.mem_cons_of_mem _ ?_)
      rw [behindEq]
      exact member

theorem lockstep_neverFinishes :
    Lockstep (α := α) fun left right => left = right ∧ left.NeverFinishes where
  front_eq same := congrArg front same.1
  allowance_eq same := congrArg allowance same.1
  advanced := by
    rintro left _ ⟨rfl, never⟩
    exact ⟨rfl, never.advanced⟩
  paid := by
    rintro rest left _ ⟨rfl, never⟩
    exact ⟨rfl, never⟩

end Cursor

section Parts

variable [Numeral α] {property : Expr α → Prop}

/-- A property of every part that a phrase with accepted calls may add to its tree, numbers
apart. -/
structure PartLaws (property : Expr α → Prop) : Prop where
  constant {word : String} {literal : α} :
    Numeral.constant? word = some literal → property (.number literal)
  var : property .var
  neg (operand : Expr α) : property (.neg operand)
  binary (operator : Operator) (left right : Expr α) : property (.binary operator left right)
  call {function : Elementary} {arguments : List (Expr α)} :
    function.acceptsCount arguments.length = true → property (.call function arguments)

def Phrase.MeansThroughout (property : Expr α → Prop) : {grade : Grade} → Phrase α grade → Prop
  | .expr _, phrase => phrase.meaning.Throughout property
  | .links _, phrase =>
    ∀ left, left.Throughout property → (phrase.meaning left).Throughout property
  | .arguments, phrase => Expr.ThroughoutAll property phrase.meaning

theorem Phrase.meansThroughout (laws : PartLaws property) {grade : Grade} (phrase : Phrase α grade)
    (accepted : phrase.CallsAccepted)
    (numbers : ∀ token ∈ phrase.tokens, ∀ literal, token.kind = .number literal →
      property (.number literal)) :
    phrase.MeansThroughout property := by
  induction phrase with
  | sum first later ihFirst ihLater =>
    obtain ⟨ofFirst, ofLater⟩ := List.forall_mem_append.mp numbers
    exact ihLater accepted.2 ofLater _ (ihFirst accepted.1 ofFirst)
  | product first later ihFirst ihLater =>
    obtain ⟨ofFirst, ofLater⟩ := List.forall_mem_append.mp numbers
    exact ihLater accepted.2 ofLater _ (ihFirst accepted.1 ofFirst)
  | noLink => exact fun left everywhere => everywhere
  | link sign operator joins right later ihRight ihLater =>
    obtain ⟨ofRight, ofLater⟩ := List.forall_mem_append.mp (List.forall_mem_cons.mp numbers).2
    intro left everywhere
    refine ihLater accepted.2 ofLater _ ⟨laws.binary operator left right.meaning, everywhere, ?_⟩
    exact ihRight accepted.1 ofRight
  | minus sign isMinus negated ih =>
    exact ⟨laws.neg negated.meaning, ih accepted (List.forall_mem_cons.mp numbers).2⟩
  | unsigned power ih => exact ih accepted numbers
  | unraised operand ih => exact ih accepted numbers
  | raised base sign isCaret exponent ihBase ihExponent =>
    obtain ⟨ofBase, behind⟩ := List.forall_mem_append.mp numbers
    have ofExponent := (List.forall_mem_cons.mp behind).2
    exact ⟨laws.binary .pow base.meaning exponent.meaning, ihBase accepted.1 ofBase,
      ihExponent accepted.2 ofExponent⟩
  | number token literal isNumber => exact numbers token List.mem_cons_self literal isNumber
  | var => exact laws.var
  | constant token isName literal isConstant => exact laws.constant isConstant
  | group opening opens inner closing closes ih =>
    have behind := (List.forall_mem_cons.mp numbers).2
    exact ih accepted (List.forall_mem_append.mp behind).1
  | call name isName function isFunction opening opens first later closing closes ihFirst ihLater =>
    have behind := (List.forall_mem_cons.mp (List.forall_mem_cons.mp numbers).2).2
    obtain ⟨ofFirst, laterClosing⟩ := List.forall_mem_append.mp behind
    have ofLater := (List.forall_mem_append.mp laterClosing).1
    exact ⟨laws.call accepted.2.2, ihFirst accepted.1 ofFirst, ihLater accepted.2.1 ofLater⟩
  | noArgument => exact trivial
  | argument comma separates next later ihNext ihLater =>
    obtain ⟨ofNext, ofLater⟩ := List.forall_mem_append.mp (List.forall_mem_cons.mp numbers).2
    exact ⟨ihNext accepted.1 ofNext, ihLater accepted.2 ofLater⟩

theorem Phrase.callsAccepted_meaning {rank : Rank} (phrase : Phrase α (.expr rank))
    (accepted : phrase.CallsAccepted) : phrase.meaning.CallsAccepted := by
  refine phrase.meansThroughout ⟨fun _ => nofun, nofun, fun _ => nofun, fun _ _ _ => nofun, ?_⟩
    accepted (fun _ _ _ _ => nofun)
  rintro function arguments accepts _ _ same
  cases same
  exact accepts

end Parts

/-! ### Any list of tokens -/

namespace Expr

variable [Numeral α]

/-- How often a token is taken until the formula is read or refused. -/
def takenFrom : List (Token α) → Nat
  | [] => 0
  | first :: behind =>
    match readTokens first behind with
    | .ok _ last => last.taken
    | .error _ last => last.taken

theorem takenFrom_le (tokens : List (Token α)) :
    takenFrom tokens ≤ 4 * Reader.nodeLimit := by
  cases tokens with
  | nil => exact Nat.zero_le _
  | cons first behind =>
    have covers := Reader.formula_keeps (.ofTaken α) ⟨first, behind, Reader.nodeLimit, 0⟩
    change Budget.Covers (.ofTaken α) (0 + 4 * Reader.nodeLimit + 0) 0
      (readTokens first behind) at covers
    rw [takenFrom]
    cases outcome : readTokens first behind with
    | ok tree last =>
      rw [outcome] at covers
      change last.taken + 4 * last.allowance + 0 ≤ _ at covers
      dsimp only
      omega
    | error failure last =>
      rw [outcome] at covers
      change last.taken + 4 * last.allowance ≤ _ at covers
      dsimp only
      omega

theorem exists_finish_of_ofTokens? {tokens : List (Token α)} {tree : Expr α}
    (read : ofTokens? tokens = .ok tree) : ∃ token ∈ tokens, token.isFinish = true := by
  by_contra none
  cases tokens with
  | nil => cases read
  | cons first behind =>
    obtain ⟨last, formulaRead⟩ := ofTokens?_eq_ok_iff_readTokens.mp read
    have never : Cursor.NeverFinishes ⟨first, behind, Reader.nodeLimit, 0⟩ := by
      intro token member
      exact Bool.eq_false_iff.mpr fun finishes => none ⟨token, member, finishes⟩
    have alike := Reader.formula_readsAlike Cursor.lockstep_neverFinishes _ _ ⟨rfl, never⟩
    rw [formulaRead] at alike
    cases alike with
    | ok _ stillNever =>
      have finishes := (formula_eq_ok_iff.mp formulaRead).2
      have goesOn := stillNever.2 last.front List.mem_cons_self
      rw [finishes] at goesOn
      cases goesOn

theorem ofTokens?_append (body : List (Token α)) {last : Token α}
    (finishes : last.isFinish = true) (behind : List (Token α)) :
    ofTokens? (body ++ last :: behind) = ofTokens? (body ++ [last]) := by
  have same := SameToFinish.of_append body finishes behind []
  generalize body ++ last :: behind = long at same
  generalize body ++ [last] = short at same
  have alike (first : Token α) (later later' : List (Token α))
      (related : SameToFinish (first :: later) (first :: later')) :
      ofTokens? (first :: later) = ofTokens? (first :: later') := by
    have outcomes : Alike Cursor.SameToFinish (readTokens first later) (readTokens first later') :=
      Reader.formula_readsAlike Cursor.lockstep_sameToFinish _ _ ⟨related, rfl, rfl⟩
    rw [ofTokens?, ofTokens?]
    generalize readTokens first later = outcome at outcomes
    generalize readTokens first later' = outcome' at outcomes
    cases outcomes with
    | ok => rfl
    | error => rfl
  cases same with
  | finish _ after after' => exact alike _ _ _ (.finish ‹_› after after')
  | cons token later => exact alike token _ _ (.cons token later)

omit [Numeral α] in
theorem exists_first_finish {tokens : List (Token α)}
    (found : ∃ token ∈ tokens, token.isFinish = true) :
    ∃ body last behind, tokens = body ++ last :: behind ∧
      (∀ token ∈ body, token.isFinish = false) ∧ last.isFinish = true := by
  obtain ⟨last, first⟩ := Option.isSome_iff_exists.mp (List.find?_isSome.mpr found)
  obtain ⟨finishes, body, behind, tokensEq, goOn⟩ := List.find?_eq_some_iff_append.mp first
  exact ⟨body, last, behind, tokensEq, fun token member => Bool.not_eq_true' _ ▸ goOn token member,
    finishes⟩

theorem size_le_and_callsAccepted {tokens : List (Token α)} {tree : Expr α}
    (read : ofTokens? tokens = .ok tree) :
    tree.size ≤ Reader.nodeLimit ∧ tree.CallsAccepted := by
  obtain ⟨body, last, behind, rfl, goOn, finishes⟩ :=
    exists_first_finish (exists_finish_of_ofTokens? read)
  rw [ofTokens?_append body finishes behind] at read
  obtain ⟨phrase, -, rfl, accepted, enough, -⟩ := (ofTokens?_eq_ok_iff goOn finishes).mp read
  have accounted : phrase.meaning.size + phrase.groups = phrase.nodes := phrase.accounted
  exact ⟨by omega, phrase.callsAccepted_meaning accepted⟩

end Expr

/-- Reading ends on any list of tokens, with the repetitions of the grammar as loops that no number
of rounds cuts short, after four tokens at most for each node of the allowance and four more. A tree
is returned only if the list holds a `finish`, and is then no larger than the allowance, with
accepted calls. Nothing behind the first `finish` has an influence. -/
theorem reading_any_tokens [Numeral α] (tokens : List (Token α)) :
    (∀ limit,
      Reader.ChainLoops Reader.multiplicative? (Reader.unary (Reader.level (α := α) limit)) ∧
      Reader.ChainLoops Reader.additive?
        (Reader.chain Reader.multiplicative? (Reader.unary (Reader.level (α := α) limit))) ∧
      Reader.ArgumentsLoop (Reader.level (α := α) limit).sum) ∧
    Expr.takenFrom tokens ≤ 4 * (Reader.nodeLimit + 1) ∧
    (∀ tree, Expr.ofTokens? tokens = .ok tree →
      (∃ token ∈ tokens, token.isFinish = true) ∧ tree.size ≤ Reader.nodeLimit ∧
        tree.CallsAccepted) ∧
    (∀ body last behind, tokens = body ++ last :: behind →
      (∀ token ∈ body, token.isFinish = false) → last.isFinish = true →
        Expr.ofTokens? tokens = Expr.ofTokens? (body ++ [last])) := by
  refine ⟨?_, ?_, ?_, ?_⟩
  · intro limit
    obtain ⟨unary, sum⟩ := Reader.level_profits (.ofAllowance α) limit
    have outer := Reader.unary_profits unary sum
    exact ⟨Reader.chain_loops outer,
      Reader.chain_loops (Reader.chain_profits Reader.multiplicative? outer),
      Reader.arguments_loop sum⟩
  · have bounded := Expr.takenFrom_le tokens
    omega
  · intro tree read
    exact ⟨Expr.exists_finish_of_ofTokens? read, Expr.size_le_and_callsAccepted read⟩
  · rintro body last behind rfl _ finishes
    exact Expr.ofTokens?_append body finishes behind

end Tangency
