/-
Splitting a text into tokens. At each place that is not blank the longest lexeme
is taken: a number form, a name of ASCII letters and digits that begins with a
letter, or one of the single characters `+ - * / ^ ( ) ,`. The scan stops at the
first character that begins no lexeme and at a number form without a digit before
its exponent. A lexeme and its rest make up the text, and the lexeme is not empty.
-/

import Tangency.Text.Blank
import Tangency.Token.Basic

namespace Tangency

/-- The characters that are tokens by themselves. -/
def symbolKind? {α : Type u} (c : Char) : Option (TokenKind α) :=
  if c = '(' then some .opening
  else if c = ')' then some .closing
  else if c = ',' then some .comma
  else if c ∈ ['+', '-', '*', '/', '^'] then some (.operator c)
  else none

/-- A lexeme at the front of a text, and what is behind it. -/
structure Lexeme (α : Type u) where
  kind : TokenKind α
  spelled : List Char
  rest : List Char

variable {α : Type u} [Numeral α]

/-- The lexeme that begins with the given character, which is not blank. -/
def lexeme (c : Char) (behind : List Char) : Except Fault (Lexeme α) :=
  if c.isDigit || c == '.' then
    match (Decimal.split (c :: behind)).value? with
    | some value =>
      .ok ⟨.number (Numeral.ofDecimal value), (Decimal.split (c :: behind)).spelled,
        (Decimal.split (c :: behind)).rest⟩
    | none => .error (.malformedNumber (String.ofList (Decimal.split (c :: behind)).spelled))
  else if c.isAlpha then
    .ok ⟨.name, c :: behind.takeWhile Char.isAlphanum, behind.dropWhile Char.isAlphanum⟩
  else
    match symbolKind? c with
    | some kind => .ok ⟨kind, [c], behind⟩
    | none => .error (.unexpectedCharacter c)

theorem lexeme_append {c : Char} {behind : List Char} {found : Lexeme α}
    (read : lexeme c behind = .ok found) :
    found.spelled ++ found.rest = c :: behind ∧ found.spelled ≠ [] := by
  unfold lexeme at read
  split at read
  · rename_i starts
    split at read
    · cases read
      exact ⟨Decimal.split_append _, Decimal.split_spelled_ne_nil behind starts⟩
    · cases read
  · split at read
    · cases read
      exact ⟨by simp [List.takeWhile_append_dropWhile], by simp⟩
    · split at read
      · cases read
        exact ⟨rfl, by simp⟩
      · cases read

theorem lexeme_rest_length {c : Char} {behind : List Char} {found : Lexeme α}
    (read : lexeme c behind = .ok found) : found.rest.length < (c :: behind).length := by
  have ⟨whole, nonempty⟩ := lexeme_append read
  rw [← whole, List.length_append]
  have := List.length_pos_iff.mpr nonempty
  omega

/-- The tokens of a text whose first character stands at the given position. -/
def scanFrom (position : Nat) (text : List Char) : Except (Failure α) (List (Token α)) :=
  match text with
  | [] => .ok [⟨.finish, "", position⟩]
  | c :: behind =>
    if isBlank c then scanFrom (position + 1) behind
    else
      match _read : lexeme (α := α) c behind with
      | .error fault => .error (.malformed position fault)
      | .ok found => do
        let later ← scanFrom (position + found.spelled.length) found.rest
        return ⟨found.kind, String.ofList found.spelled, position⟩ :: later
termination_by text.length
decreasing_by
  · simp
  · exact lexeme_rest_length _read

/-- The tokens of a text; `finish` stands at the length of the text. -/
def Token.scan (source : String) : Except (Failure α) (List (Token α)) :=
  scanFrom 0 source.toList

end Tangency
