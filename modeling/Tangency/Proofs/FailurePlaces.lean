/-
Where a formula is refused.

A scan takes a lexeme, gets stuck or finishes only where no blank stands: at a character that is not
one, or behind the last character.  Readers know no places but those of the tokens.  A reading
beside itself fails twice at the place of one token, and both times it is the same place.

So the position of a failure is that of a character that is not blank, or the length of the text.
-/

import Tangency.Proofs.Spacing

namespace Tangency

variable {α : Type}

/-- No blank stands at the place; the first character of the text stands at the given position. -/
def OnText (position : Nat) (text : List Char) (place : Nat) : Prop :=
  ∃ front rest, text = front ++ rest ∧ place = position + front.length ∧
    ∀ c ∈ rest.head?, isBlank c = false

namespace OnText

variable {position place : Nat} {text : List Char}

theorem here (noBlank : ∀ c ∈ text.head?, isBlank c = false) : OnText position text position :=
  ⟨[], text, rfl, rfl, noBlank⟩

theorem behind (word : List Char) (onText : OnText (position + word.length) text place) :
    OnText position (word ++ text) place := by
  obtain ⟨front, rest, rfl, placeEq, noBlank⟩ := onText
  refine ⟨word ++ front, rest, (List.append_assoc word front rest).symm, ?_, noBlank⟩
  rw [placeEq, List.length_append, Nat.add_assoc]

theorem at_zero (onText : OnText 0 text place) :
    place ≤ text.length ∧
      (place = text.length ∨ ∃ c, text[place]? = some c ∧ isBlank c = false) := by
  obtain ⟨front, rest, rfl, placeEq, noBlank⟩ := onText
  rw [Nat.zero_add] at placeEq
  subst placeEq
  rw [List.length_append]
  refine ⟨Nat.le_add_right _ _, ?_⟩
  cases rest with
  | nil => exact .inl rfl
  | cons c later =>
    refine .inr ⟨c, ?_, noBlank c rfl⟩
    rw [List.getElem?_append_right le_rfl, Nat.sub_self, List.getElem?_cons_zero]

end OnText

/-- The positions of the tokens, or the one at which the scan is stuck. -/
def placesOf : Except Nat (List (Token α)) → List Nat
  | .ok tokens => tokens.map Token.position
  | .error place => [place]

section Scanning

variable [Numeral α]

theorem Scans.onText {position : Nat} {text : List Char} {outcome : Except Nat (List (Token α))}
    (scans : Scans position text outcome) :
    ∀ place ∈ placesOf outcome, OnText position text place := by
  induction scans with
  | finish position => exact List.forall_mem_singleton.mpr (.here nofun)
  | @blank position c behind outcome isBlank later ih =>
    exact fun place told => .behind [c] (ih place told)
  | @lexeme position text word rest kind outcome textEq noBlank longest lexes later ih =>
    cases outcome with
    | error stuckAt =>
      subst textEq
      exact fun place told => (ih place told).behind word
    | ok tokens =>
      refine List.forall_mem_cons.mpr ⟨.here noBlank, fun place told => ?_⟩
      subst textEq
      exact (ih place told).behind word
  | stuck noBlank noLexeme =>
    refine List.forall_mem_singleton.mpr (.here ?_)
    intro first isHead
    cases isHead
    exact noBlank

theorem Token.scan_onText {source : String} {tokens : List (Token α)}
    (scanned : scan source = .ok tokens) {token : Token α} (member : token ∈ tokens) :
    OnText 0 source.toList token.position :=
  (scan_eq_ok_iff.mp scanned).onText _ (List.mem_map_of_mem member)

theorem Token.scan_error_onText {source : String} {place : Nat} {fault : Fault}
    (failed : scan (α := α) source = .error (.malformed place fault)) :
    OnText 0 source.toList place := by
  have stuck : scanOutcome (scan (α := α) source) = some (.error place) :=
    scanOutcome_eq_error_iff.mpr ⟨fault, failed⟩
  exact (scanOutcome_scanFrom_iff.mp stuck).onText place (List.mem_singleton_self place)

theorem Expr.exists_token_of_malformed {source : String} {tokens : List (Token α)}
    (scanned : Token.scan source = .ok tokens) {place : Nat} {fault : Fault}
    (failed : ofText? (α := α) source = .error (.malformed place fault)) :
    ∃ token ∈ tokens, token.position = place := by
  have same : SameTokens tokens tokens := List.forall₂_same.mpr fun _ _ => ⟨rfl, rfl⟩
  have alike := same.ofText?_readAlike scanned scanned
  rw [failed] at alike
  cases alike with
  | error corresponds =>
    cases corresponds with
    | placed fault place =>
      obtain ⟨index, token, -, found, -, positionEq, -⟩ := place
      exact ⟨token, List.mem_of_getElem? found, positionEq⟩
    | unplaced nowhere => cases nowhere

/-- Where a text is refused at a position, the position is the length of the text or that of a
character that is not blank. If the text has tokens at all, one of them stands there. -/
theorem refusal_is_on_text (source : String) {place : Nat} {fault : Fault}
    (failed : Expr.ofText? (α := α) source = .error (.malformed place fault)) :
    place ≤ source.length ∧
      (place = source.length ∨ ∃ c, source.toList[place]? = some c ∧ isBlank c = false) ∧
      ∀ tokens : List (Token α), Token.scan source = .ok tokens →
        ∃ token ∈ tokens, token.position = place := by
  have onText : OnText 0 source.toList place := by
    cases scanned : Token.scan (α := α) source with
    | error failure =>
      have stopped : Expr.ofText? (α := α) source = .error failure := by
        rw [Expr.ofText?, scanned]
        rfl
      rw [stopped, Except.error.injEq] at failed
      exact Token.scan_error_onText (scanned.trans (congrArg Except.error failed))
    | ok tokens =>
      obtain ⟨token, member, rfl⟩ := Expr.exists_token_of_malformed scanned failed
      exact Token.scan_onText scanned member
  obtain ⟨within, noBlank⟩ := onText.at_zero
  rw [String.length_toList] at within noBlank
  exact ⟨within, noBlank, fun tokens scanned =>
    Expr.exists_token_of_malformed scanned failed⟩

end Scanning

/-- A call with too many arguments is refused at its name, long behind it. Two wide blanks in front
of the name are two characters. -/
theorem refusal_is_on_text_wideBlanks :
    ∃ fault, Expr.ofText? (α := Binary64) "\u3000\u00a0log(x, 2, 3)" = .error (.malformed 2 fault) ∧
      2 ≤ "\u3000\u00a0log(x, 2, 3)".length ∧
      (2 = "\u3000\u00a0log(x, 2, 3)".length ∨
        ∃ c, "\u3000\u00a0log(x, 2, 3)".toList[2]? = some c ∧ isBlank c = false) ∧
      ∀ tokens : List (Token Binary64), Token.scan "\u3000\u00a0log(x, 2, 3)" = .ok tokens →
        ∃ token ∈ tokens, token.position = 2 := by
  have refused : (match Expr.ofText? (α := Binary64) "\u3000\u00a0log(x, 2, 3)" with
      | .ok _ => none
      | .error failure => failure.position?) = some 2 := by
    decide +kernel
  have failed : ∃ fault,
      Expr.ofText? (α := Binary64) "\u3000\u00a0log(x, 2, 3)" = .error (.malformed 2 fault) := by
    revert refused
    generalize Expr.ofText? (α := Binary64) "\u3000\u00a0log(x, 2, 3)" = outcome
    intro refused
    cases outcome with
    | ok tree => cases refused
    | error failure =>
      cases failure with
      | malformed place fault =>
        cases refused
        exact ⟨fault, rfl⟩
      | _ => cases refused
  obtain ⟨fault, failed⟩ := failed
  exact ⟨fault, failed, refusal_is_on_text _ failed⟩

end Tangency
