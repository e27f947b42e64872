/-
The text of a tree reads back to a tree with the same meaning.

A tree over doubles whose literals are finite and whose calls are accepted is written as a
formula, which is read as the regrouped tree or refused for a limit.  Over exact arithmetic
both trees mean the same: in every field, at every point, and whatever powers and functions
mean.

The limits are those of reading.  Nothing is said here about which trees stay within them.
-/

import Mathlib.Data.Rat.Defs
import Tangency.Proofs.FirstImpossibleToken
import Tangency.Proofs.LiteralText

namespace Tangency

universe u

section Reading

variable {α : Type} [Numeral α]

theorem Phrase.goesOn {grade : Grade} (phrase : Phrase α grade) :
    ∀ token ∈ phrase.tokens, token.isFinish = false := by
  induction phrase with
  | sum first later ihFirst ihLater => exact List.forall_mem_append.mpr ⟨ihFirst, ihLater⟩
  | product first later ihFirst ihLater => exact List.forall_mem_append.mpr ⟨ihFirst, ihLater⟩
  | noLink => exact nofun
  | link sign operator joins right later ihRight ihLater =>
    exact List.forall_mem_cons.mpr
      ⟨Reader.isFinish_of_joins joins, List.forall_mem_append.mpr ⟨ihRight, ihLater⟩⟩
  | minus sign isMinus negated ih =>
    have isSign := (Token.symbol?_eq_some_iff sign '-').mp isMinus
    exact List.forall_mem_cons.mpr ⟨Reader.isFinish_of_kind isSign (by simp), ih⟩
  | unsigned power ih => exact ih
  | unraised operand ih => exact ih
  | raised base sign isCaret exponent ihBase ihExponent =>
    have isSign := (Token.symbol?_eq_some_iff sign '^').mp isCaret
    exact List.forall_mem_append.mpr
      ⟨ihBase, List.forall_mem_cons.mpr ⟨Reader.isFinish_of_kind isSign (by simp), ihExponent⟩⟩
  | number token literal isNumber =>
    exact List.forall_mem_singleton.mpr (Reader.isFinish_of_kind isNumber (by simp))
  | var token isName isVariable =>
    exact List.forall_mem_singleton.mpr (Reader.isFinish_of_kind isName (by simp))
  | constant token isName literal isConstant =>
    exact List.forall_mem_singleton.mpr (Reader.isFinish_of_kind isName (by simp))
  | group opening opens inner closing closes ih =>
    have closingGoesOn := Reader.isFinish_of_kind closes (by simp)
    exact List.forall_mem_cons.mpr ⟨Reader.isFinish_of_kind opens (by simp),
      List.forall_mem_append.mpr ⟨ih, List.forall_mem_singleton.mpr closingGoesOn⟩⟩
  | call name isName function isFunction opening opens first later closing closes ihFirst ihLater =>
    have closingGoesOn := Reader.isFinish_of_kind closes (by simp)
    have inside := List.forall_mem_append.mpr ⟨ihFirst,
      List.forall_mem_append.mpr ⟨ihLater, List.forall_mem_singleton.mpr closingGoesOn⟩⟩
    exact List.forall_mem_cons.mpr ⟨Reader.isFinish_of_kind isName (by simp),
      List.forall_mem_cons.mpr ⟨Reader.isFinish_of_kind opens (by simp), inside⟩⟩
  | noArgument => exact nofun
  | argument comma separates next later ihNext ihLater =>
    exact List.forall_mem_cons.mpr ⟨Reader.isFinish_of_kind separates (by simp),
      List.forall_mem_append.mpr ⟨ihNext, ihLater⟩⟩

theorem Expr.ofText?_text_eq [Neg α] (tree : Expr α) (legible : tree.Throughout LegiblePart) :
    ∃ phrase : Phrase α (.expr .sum), phrase.meaning = tree.regrouped ∧ phrase.CallsAccepted ∧
      phrase.extent = tree.writtenExtent ∧
      ofText? tree.text = ofTokens? (phrase.tokens ++ [⟨.finish, "", tree.text.length⟩]) := by
  rcases scan_text tree legible with ⟨phrase, treeEq, accepted, extentEq, scanned⟩
  refine ⟨phrase, treeEq, accepted, extentEq, ?_⟩
  rw [ofText?, scanned]
  rfl

theorem Expr.ofText?_text [Neg α] (tree : Expr α) (legible : tree.Throughout LegiblePart) :
    (∃ failure : Failure α, ofText? tree.text = .error failure ∧ failure.IsLimit) ∨
      ofText? tree.text = .ok tree.regrouped := by
  rcases tree.ofText?_text_eq legible with ⟨phrase, treeEq, accepted, -, readEq⟩
  rw [readEq]
  cases outcome : ofTokens? (phrase.tokens ++ [⟨.finish, "", tree.text.length⟩]) with
  | error failure =>
    have exceeded := isLimit_of_ofTokens?_eq_error phrase phrase.goesOn rfl accepted outcome
    exact .inl ⟨failure, rfl, exceeded⟩
  | ok read =>
    rcases (ofTokens?_eq_ok_iff phrase.goesOn rfl).mp outcome with ⟨found, sameTokens, rfl, -⟩
    rw [Phrase.eq_of_tokens_eq sameTokens, treeEq]
    exact .inr rfl

end Reading

/-- A rational number in a field. It has no value where its denominator is zero. -/
def Exact.ofRational {K : Type u} [Field K] [DecidableEq K] (value : ℚ) : Exact K :=
  divide value.num value.den

theorem Exact.negate_ofRational_neg {K : Type u} [Field K] [DecidableEq K] (value : ℚ) :
    Interpretation.negate (ofRational (-value) : Exact K) = ofRational value := by
  rw [ofRational, ofRational, Rat.neg_num, Rat.neg_den, divide, divide]
  by_cases noValue : (value.den : K) = 0
  · rw [if_pos noValue, if_pos noValue]
    rfl
  · rw [if_neg noValue, if_neg noValue, Int.cast_neg, neg_div]
    exact congrArg Exact.known (neg_neg _)

namespace Binary64

def exactly {K : Type u} [Field K] [DecidableEq K] (x : Binary64) : Exact K :=
  Exact.ofRational x.rational

theorem negate_exactly_neg {K : Type u} [Field K] [DecidableEq K] (x : Binary64) :
    Interpretation.negate (exactly (-x) : Exact K) = exactly x := by
  rw [exactly, rational_neg, Exact.negate_ofRational_neg]
  rfl

end Binary64

namespace Expr

variable {α : Type u}

def LiteralsFinite [Scalar α] (tree : Expr α) : Prop :=
  tree.Throughout fun part => ∀ literal, part = number literal → Scalar.isFinite literal = true

def CallsAccepted (tree : Expr α) : Prop :=
  tree.Throughout fun part => ∀ function arguments, part = call function arguments →
    function.acceptsCount arguments.length = true

theorem legible_of_literalsFinite {tree : Expr Binary64} (finite : tree.LiteralsFinite)
    (accepted : tree.CallsAccepted) : tree.Throughout LegiblePart := by
  refine Throughout.and ?_ finite accepted
  intro part partFinite partAccepted
  cases part with
  | number literal => exact Binary64.legible (partFinite literal rfl)
  | call function arguments => exact partAccepted function arguments rfl
  | _ => exact trivial

/-- The text of a tree over finite doubles with accepted calls is read as the regrouped tree, unless
it is nested too deeply or too long. -/
theorem ofText?_text_of_literalsFinite {tree : Expr Binary64} (finite : tree.LiteralsFinite)
    (accepted : tree.CallsAccepted) :
    (∃ position fault, ofText? (α := Binary64) tree.text = .error (.malformed position fault) ∧
      (fault = .nestedTooDeeply ∨ fault = .tooLong Reader.nodeLimit)) ∨
    ofText? tree.text = .ok tree.regrouped := by
  rcases tree.ofText?_text (legible_of_literalsFinite finite accepted) with
    ⟨failure, failed, exceeded⟩ | read
  · cases failure with
    | malformed position fault => exact .inl ⟨position, fault, failed, exceeded⟩
    | _ => exact absurd exceeded id
  · exact .inr read

end Expr

/-- A tree whose literals are finite, those with a minus and negative zero among them, and whose
calls are accepted is written as a text that is read back, unless it is nested too deeply or too
long, as a tree with the same meaning: over exact arithmetic in any field and for any meaning of
powers and functions, the trees are defined at the same points and have the same value there. -/
theorem text_keeps_meaning (tree : Expr Binary64) (finite : tree.LiteralsFinite)
    (accepted : tree.CallsAccepted) :
    (∃ position fault, Expr.ofText? (α := Binary64) tree.text = .error (.malformed position fault) ∧
      (fault = .nestedTooDeeply ∨ fault = .tooLong Reader.nodeLimit)) ∨
    ∃ read, Expr.ofText? tree.text = .ok read ∧
      ∀ (K : Type u) [Field K] [DecidableEq K] (interpretation : Interpretation K)
        (point : Exact K),
        read.meaning interpretation Binary64.exactly point =
          tree.meaning interpretation Binary64.exactly point := by
  rcases Expr.ofText?_text_of_literalsFinite finite accepted with refused | read
  · exact .inl refused
  · refine .inr ⟨tree.regrouped, read, ?_⟩
    intro K _ _ interpretation point
    exact (tree.regroup_means interpretation Binary64.negate_exactly_neg point).alone

/-- The tree of `x*(-2*x)` with `-2` as a literal. -/
def nestedProduct : Expr Binary64 :=
  .binary .mul .var (.binary .mul (.number ⟨0xC000000000000000⟩) .var)

/-- The text `x*-2*x` is read as `(x*-2)*x`, with a negation. -/
theorem text_keeps_meaning_nestedProduct :
    nestedProduct.LiteralsFinite ∧ nestedProduct.CallsAccepted ∧
      ∃ read, Expr.ofText? nestedProduct.text = .ok read ∧
        ∀ (K : Type u) [Field K] [DecidableEq K] (interpretation : Interpretation K)
          (point : Exact K),
          read.meaning interpretation Binary64.exactly point =
            nestedProduct.meaning interpretation Binary64.exactly point := by
  have finite : nestedProduct.LiteralsFinite := by
    refine ⟨nofun, nofun, nofun, ?_, nofun⟩
    intro literal same
    cases same
    decide +kernel
  have accepted : nestedProduct.CallsAccepted := ⟨nofun, nofun, nofun, nofun, nofun⟩
  have isRead : (match Expr.ofText? (α := Binary64) nestedProduct.text with
      | .ok _ => true
      | .error _ => false) = true := by
    decide +kernel
  refine ⟨finite, accepted, ?_⟩
  rcases text_keeps_meaning nestedProduct finite accepted with ⟨position, fault, failed, -⟩ | read
  · rw [failed] at isRead
    cases isRead
  · exact read

end Tangency
