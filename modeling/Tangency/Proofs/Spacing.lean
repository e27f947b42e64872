/-
Blank characters between tokens do not matter.

Each word that a scan cut off is one token by itself, so the words may be written again with any
blanks between them, if at least one keeps neighbours apart, and are cut off again.  This also holds
of a number in front of what looks like an exponent and is none.

Readers see of two such texts the same kinds and texts of tokens.  They return the same tree, or
fail alike, each at its own position of the same token.
-/

import Tangency.Proofs.PairedReading
import Tangency.Proofs.ScannedPieces

namespace Tangency

variable {α : Type}

/-- The words in order, each with blanks behind it, and at least one if another word follows. -/
inductive WordsApart : List String → List Char → Prop where
  | nil : WordsApart [] []
  | cons (word : String) {gap : List Char} (blank : ∀ c ∈ gap, isBlank c = true)
      {words : List String} (separates : words ≠ [] → gap ≠ []) {text : List Char}
      (later : WordsApart words text) :
      WordsApart (word :: words) (word.toList ++ (gap ++ text))

/-- The text is the words in order, with blanks between them and any blanks at both ends. -/
def Spaced (words : List String) (text : List Char) : Prop :=
  ∃ gap body, (∀ c ∈ gap, isBlank c = true) ∧ WordsApart words body ∧ text = gap ++ body

abbrev SameTokens (tokens tokens' : List (Token α)) : Prop :=
  List.Forall₂ (fun token token' => token.kind = token'.kind ∧ token.text = token'.text)
    tokens tokens'

section Scanning

variable [Numeral α]

theorem WordsApart.apart {words : List String} {gap text : List Char}
    (blank : ∀ c ∈ gap, isBlank c = true) (separates : words ≠ [] → gap ≠ [])
    (later : WordsApart words text) : Apart (gap ++ text) := by
  cases gap with
  | cons c gap => exact apart_of_blank _ (blank c List.mem_cons_self)
  | nil =>
    cases later with
    | nil => exact nofun
    | cons => exact absurd rfl (separates (List.cons_ne_nil _ _))

theorem WordsApart.scanFrom_eq {body : List (Token α)} (stop : Nat)
    (lexes : ∀ token ∈ body, Lexes token.text.toList token.kind) {text : List Char}
    (apart : WordsApart (body.map Token.text) text) (position : Nat) :
    ∃ tokens', scanFrom position text = .ok tokens' ∧
      SameTokens (body ++ [⟨.finish, "", stop⟩]) tokens' := by
  induction body generalizing position text with
  | nil =>
    cases apart
    refine ⟨[⟨.finish, "", position⟩], ?_, .cons ⟨rfl, rfl⟩ .nil⟩
    rw [scanFrom]
  | cons token body ih =>
    obtain ⟨tokenLexes, laterLex⟩ := List.forall_mem_cons.mp lexes
    rw [List.map_cons] at apart
    generalize body.map Token.text = words at apart ih
    cases apart with
    | @cons _ gap blank _ separates text later =>
      have rest := WordsApart.apart blank separates later
      rw [ScansAs.lexes tokenLexes _ rest, scanFrom_blanks blank]
      obtain ⟨tokens', scanned, same⟩ := ih laterLex later
        (position + token.text.toList.length + gap.length)
      rw [scanned]
      exact ⟨_, rfl, .cons ⟨rfl, String.ofList_toList.symm⟩ same⟩

theorem Spaced.scan {source respaced : String} {tokens : List (Token α)}
    (scanned : Token.scan source = .ok tokens)
    (spaced : Spaced (tokens.dropLast.map Token.text) respaced.toList) :
    ∃ tokens', Token.scan respaced = .ok tokens' ∧ SameTokens tokens tokens' := by
  obtain ⟨body, stop, rfl, lexes⟩ := (scan_eq_ok_iff.mp scanned).lexes tokens rfl
  obtain ⟨gap, text, blank, apart, textEq⟩ := spaced
  rw [List.dropLast_concat] at apart
  rw [Token.scan, textEq, scanFrom_blanks blank]
  exact apart.scanFrom_eq stop lexes _

end Scanning

def SamePlace (tokens tokens' : List (Token α)) (position position' : Nat) : Prop :=
  ∃ (index : Nat) (token token' : Token α), tokens[index]? = some token ∧
    tokens'[index]? = some token' ∧ token.position = position ∧ token'.position = position'

theorem SameTokens.corresponds {tokens tokens' : List (Token α)}
    (same : SameTokens tokens tokens') :
    List.Forall₂ (Token.Corresponds (SamePlace tokens tokens')) tokens tokens' := by
  obtain ⟨lengthEq, sameAt⟩ := List.forall₂_iff_get.mp same
  refine List.forall₂_iff_get.mpr ⟨lengthEq, fun index within within' => ?_⟩
  obtain ⟨kindEq, textEq⟩ := sameAt index within within'
  exact ⟨kindEq, textEq, index, _, _, List.getElem?_eq_getElem within,
    List.getElem?_eq_getElem within', rfl, rfl⟩

def Pairing.respaced (places : Nat → Nat → Prop) : Pairing α where
  related left right :=
    List.Forall₂ (Token.Corresponds places) left.tokens right.tokens ∧
      left.allowance = right.allowance
  places := places
  excused _ := False
  front start := by
    cases start.1 with
    | cons same later => exact same
  advanced start := by
    refine ⟨Cursor.forall₂_advanced Token.Corresponds.isFinish_eq start.1, ?_⟩
    rw [Cursor.allowance_advanced, Cursor.allowance_advanced]
    exact start.2
  paid start enough := ⟨_, start.2.symm.trans enough, start.1, rfl⟩
  exhausted start empty := .inl (start.2.symm.trans empty)

/-- The same tree, or the same failure at corresponding places. -/
inductive ReadAlike (places : Nat → Nat → Prop) :
    Except (Failure α) (Expr α) → Except (Failure α) (Expr α) → Prop where
  | ok (tree : Expr α) : ReadAlike places (.ok tree) (.ok tree)
  | error {failure failure' : Failure α} (same : failure.Corresponds places failure') :
      ReadAlike places (.error failure) (.error failure')

variable [Numeral α]

theorem Expr.ofTokens?_readAlike {places : Nat → Nat → Prop} {first first' : Token α}
    {behind behind' : List (Token α)}
    (corresponds : List.Forall₂ (Token.Corresponds places) (first :: behind)
      (first' :: behind')) :
    ReadAlike places (ofTokens? (first :: behind)) (ofTokens? (first' :: behind')) := by
  have ends : (Pairing.respaced places).Outcome Eq (readTokens first behind)
      (readTokens first' behind') :=
    Reader.formula_pairs (Pairing.respaced places) _ _ ⟨corresponds, rfl⟩
  rw [ofTokens?, ofTokens?]
  generalize readTokens first behind = outcome at ends
  generalize readTokens first' behind' = outcome' at ends
  cases ends with
  | ok agrees =>
    subst agrees
    exact .ok _
  | error same => exact .error same
  | excused excuse => exact excuse.elim

theorem SameTokens.ofText?_readAlike {source source' : String} {tokens tokens' : List (Token α)}
    (scanned : Token.scan source = .ok tokens) (scanned' : Token.scan source' = .ok tokens')
    (same : SameTokens tokens tokens') :
    ReadAlike (α := α) (SamePlace tokens tokens') (Expr.ofText? source)
      (Expr.ofText? source') := by
  have read : Expr.ofText? source = Expr.ofTokens? tokens := by
    rw [Expr.ofText?, scanned]
    rfl
  have read' : Expr.ofText? source' = Expr.ofTokens? tokens' := by
    rw [Expr.ofText?, scanned']
    rfl
  obtain ⟨body, stop, bodyEq, -⟩ := (scan_eq_ok_iff.mp scanned).lexes tokens rfl
  rw [read, read']
  have corresponds := same.corresponds
  generalize SamePlace tokens tokens' = places at corresponds ⊢
  cases corresponds with
  | nil => exact absurd bodyEq.symm (List.append_ne_nil_of_right_ne_nil body (List.cons_ne_nil _ _))
  | cons first later => exact Expr.ofTokens?_readAlike (.cons first later)

/-- A text whose words are written again with other blanks is scanned as the same tokens. Texts with
the same tokens are read as the same tree, or fail with the same fault, each at its own position of
the same token. -/
theorem spacing_changes_nothing {source : String} {tokens : List (Token α)}
    (scanned : Token.scan source = .ok tokens) :
    (∀ respaced : String, Spaced (tokens.dropLast.map Token.text) respaced.toList →
      ∃ tokens', Token.scan respaced = .ok tokens' ∧ SameTokens tokens tokens') ∧
    (∀ (other : String) (tokens' : List (Token α)), Token.scan other = .ok tokens' →
      SameTokens tokens tokens' →
        ReadAlike (α := α) (SamePlace tokens tokens') (Expr.ofText? source)
          (Expr.ofText? other)) :=
  ⟨fun _ spaced => spaced.scan scanned,
    fun _ _ scanned' same => same.ofText?_readAlike scanned scanned'⟩

/-- In `2e+x` the exponent is none, so blanks may stand in front of its `e` and its sign. -/
theorem spacing_changes_nothing_noExponent :
    ∃ tokens tokens' : List (Token Binary64),
      Token.scan "2e+x" = .ok tokens ∧ Token.scan " 2 e  + x" = .ok tokens' ∧
        SameTokens tokens tokens' ∧
          ReadAlike (α := Binary64) (SamePlace tokens tokens') (Expr.ofText? "2e+x")
            (Expr.ofText? " 2 e  + x") := by
  have words : (Token.scan (α := Binary64) "2e+x").toOption.map
      (fun tokens => tokens.dropLast.map Token.text) = some ["2", "e", "+", "x"] := by
    decide +kernel
  obtain ⟨tokens, found, wordsEq⟩ := Option.map_eq_some_iff.mp words
  have scanned : Token.scan "2e+x" = .ok tokens := by
    cases outcome : Token.scan (α := Binary64) "2e+x" with
    | ok others =>
      rw [outcome] at found
      cases found
      rfl
    | error failure =>
      rw [outcome] at found
      cases found
  have blank : ∀ c ∈ [' '], isBlank c = true := List.forall_mem_singleton.mpr rfl
  have blanks : ∀ c ∈ [' ', ' '], isBlank c = true := List.forall_mem_cons.mpr ⟨rfl, blank⟩
  have spaced : Spaced (tokens.dropLast.map Token.text) " 2 e  + x".toList := by
    rw [wordsEq]
    exact ⟨[' '], _, blank, .cons "2" blank nofun (.cons "e" blanks nofun
      (.cons "+" blank nofun (.cons "x" (List.forall_mem_nil _) nofun .nil))), rfl⟩
  obtain ⟨tokens', scanned', same⟩ := (spacing_changes_nothing scanned).1 _ spaced
  exact ⟨tokens, tokens', scanned, scanned', same,
    (spacing_changes_nothing scanned).2 _ tokens' scanned' same⟩

end Tangency
