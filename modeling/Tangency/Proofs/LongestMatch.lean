/-
The scan of a text is the longest-match scan of its lexemes, and loses nothing.

The reference skips blank characters and takes the longest lexeme at every other place; it
is stuck where no lexeme begins.  It is a relation over the language of lexemes and knows
neither the order in which the scan tries them nor how far the scan looks ahead.  The scan
comes to what the reference comes to, on every text.

The tokens of a text cut it up: each is a slice of it, they follow one another, and what is
outside of them is blank.
-/

import Tangency.Proofs.NumberForms
import Tangency.Token.Scan

namespace Tangency

open scoped Computability

def nameForms : Language Char := oneChar Char.isAlpha * (oneChar Char.isAlphanum)∗

def symbols : List Char := ['+', '-', '*', '/', '^', '(', ')', ',']

def symbolForms : Language Char := oneChar fun c => symbols.contains c

def lexemes : Language Char := numberForms + nameForms + symbolForms

/-- The longest word of the language at the front of the text. -/
structure LongestAt (language : Language Char) (text word : List Char) : Prop where
  mem : word ∈ language
  begins : word <+: text
  longest : ∀ other ∈ language, other <+: text → other.length ≤ word.length

theorem LongestAt.unique {language : Language Char} {text word word' : List Char}
    (first : LongestAt language text word) (second : LongestAt language text word') :
    word = word' := by
  have shorter := second.longest word first.mem first.begins
  have longer := first.longest word' second.mem second.begins
  have sameLength : word.length = word'.length := by omega
  rw [List.prefix_iff_eq_take.mp first.begins, List.prefix_iff_eq_take.mp second.begins,
    sameLength]

/-- What a word is as a token. A number is what the word reads to by itself. -/
inductive Lexes {α : Type} [Numeral α] : List Char → TokenKind α → Prop where
  | number {word : List Char} {value : Decimal} (isNumber : word ∈ numberForms)
      (reads : (Decimal.split word).value? = some value) :
      Lexes word (.number (Numeral.ofDecimal value))
  | name {word : List Char} (isName : word ∈ nameForms) : Lexes word .name
  | operator {symbol : Char} (known : symbol ∈ ['+', '-', '*', '/', '^']) :
      Lexes [symbol] (.operator symbol)
  | opening : Lexes ['('] .opening
  | closing : Lexes [')'] .closing
  | comma : Lexes [','] .comma

theorem startsNumber {word : List Char} (isNumber : word ∈ numberForms) :
    ∃ c later, word = c :: later ∧ (c.isDigit || c == '.') = true := by
  rcases mem_numberForms.mp isNumber with ⟨whole, fraction, exponent, rfl, form⟩
  cases whole with
  | cons c later =>
    refine ⟨c, _, rfl, ?_⟩
    rw [form.wholeDigits c List.mem_cons_self]
    rfl
  | nil =>
    rcases form.fractionForm with rfl | ⟨places, -, rfl⟩
    · exact absurd rfl form.digit
    · exact ⟨'.', _, rfl, rfl⟩

theorem mem_nameForms {word : List Char} :
    word ∈ nameForms ↔ ∃ c later, word = c :: later ∧ c.isAlpha = true ∧
      ∀ next ∈ later, next.isAlphanum = true := by
  rw [nameForms, Language.mem_mul]
  constructor
  · rintro ⟨_, ⟨c, isLetter, rfl⟩, later, inStar, rfl⟩
    exact ⟨c, later, rfl, isLetter, mem_oneChar_kstar.mp inStar⟩
  · rintro ⟨c, later, rfl, isLetter, alphanum⟩
    exact ⟨[c], singleton_mem_oneChar.mpr isLetter, later, mem_oneChar_kstar.mpr alphanum, rfl⟩

theorem mem_symbolForms {word : List Char} :
    word ∈ symbolForms ↔ ∃ c ∈ symbols, word = [c] := by
  constructor
  · rintro ⟨c, isSymbol, rfl⟩
    exact ⟨c, List.contains_iff_mem.mp isSymbol, rfl⟩
  · rintro ⟨c, isSymbol, rfl⟩
    exact singleton_mem_oneChar.mpr (List.contains_iff_mem.mpr isSymbol)

theorem lexemes_cons {c : Char} {behind word : List Char} (isLexeme : word ∈ lexemes)
    (begins : word <+: c :: behind) :
    (word ∈ numberForms ∧ (c.isDigit || c == '.') = true) ∨
      (word ∈ nameForms ∧ c.isAlpha = true) ∨ (word = [c] ∧ c ∈ symbols) := by
  rcases begins with ⟨rest, whole⟩
  rcases isLexeme with (isNumber | isName) | isSymbol
  · rcases startsNumber isNumber with ⟨first, later, rfl, starts⟩
    cases whole
    exact .inl ⟨isNumber, starts⟩
  · rcases mem_nameForms.mp isName with ⟨first, later, rfl, starts, -⟩
    cases whole
    exact .inr (.inl ⟨isName, starts⟩)
  · rcases mem_symbolForms.mp isSymbol with ⟨first, known, rfl⟩
    cases whole
    exact .inr (.inr ⟨rfl, known⟩)

theorem ne_nil_of_mem_lexemes {word : List Char} (isLexeme : word ∈ lexemes) : word ≠ [] := by
  rcases isLexeme with (isNumber | isName) | isSymbol
  · rcases startsNumber isNumber with ⟨c, later, rfl, -⟩
    exact List.cons_ne_nil c later
  · rcases mem_nameForms.mp isName with ⟨c, later, rfl, -⟩
    exact List.cons_ne_nil c later
  · rcases mem_symbolForms.mp isSymbol with ⟨c, -, rfl⟩
    exact List.cons_ne_nil c []

theorem not_longestAt_nil {word : List Char} : ¬LongestAt lexemes [] word := fun longest =>
  ne_nil_of_mem_lexemes longest.mem (List.prefix_nil.mp longest.begins)

theorem isAlpha_bounds {c : Char} (letter : c.isAlpha = true) :
    65 ≤ c.toNat ∧ c.toNat ≤ 90 ∨ 97 ≤ c.toNat ∧ c.toNat ≤ 122 := by
  rcases Bool.or_eq_true_iff.mp letter with upper | lower
  · exact .inl (of_decide_eq_true upper)
  · rcases Bool.and_eq_true_iff.mp lower with ⟨above, below⟩
    exact .inr ⟨of_decide_eq_true above, of_decide_eq_true below⟩

theorem isAlpha_of_startsNumber {c : Char} (starts : (c.isDigit || c == '.') = true) :
    c.isAlpha = false := by
  rcases Bool.or_eq_true_iff.mp starts with isDigit | isPoint
  · have digitBounds : 48 ≤ c.toNat ∧ c.toNat ≤ 57 := Char.isDigit_iff_toNat.mp isDigit
    rw [Bool.eq_false_iff]
    intro letter
    have letterBounds := isAlpha_bounds letter
    omega
  · rw [eq_of_beq isPoint]
    rfl

theorem symbol_starts_nothing {c : Char} (known : c ∈ symbols) :
    (c.isDigit || c == '.') = false ∧ c.isAlpha = false ∧ isBlank c = false := by
  simp only [symbols, List.mem_cons, List.not_mem_nil, or_false] at known
  rcases known with rfl | rfl | rfl | rfl | rfl | rfl | rfl | rfl <;> decide

theorem not_mem_numberForms_of_symbol {c : Char} (known : c ∈ symbols) : [c] ∉ numberForms := by
  intro isNumber
  rcases startsNumber isNumber with ⟨_, _, same, starts⟩
  cases same
  rw [(symbol_starts_nothing known).1] at starts
  cases starts

theorem not_mem_nameForms_of_symbol {c : Char} (known : c ∈ symbols) : [c] ∉ nameForms := by
  intro isName
  rcases mem_nameForms.mp isName with ⟨_, _, same, starts, -⟩
  cases same
  rw [(symbol_starts_nothing known).2.1] at starts
  cases starts

theorem not_mem_nameForms_of_number {word : List Char} (isNumber : word ∈ numberForms) :
    word ∉ nameForms := by
  intro isName
  rcases startsNumber isNumber with ⟨c, later, rfl, starts⟩
  rcases mem_nameForms.mp isName with ⟨_, _, same, letter, -⟩
  cases same
  rw [isAlpha_of_startsNumber starts] at letter
  cases letter

theorem mem_symbols_of_operator {c : Char} (known : c ∈ ['+', '-', '*', '/', '^']) : c ∈ symbols :=
  List.mem_append_left ['(', ')', ','] known

theorem Lexes.mem_lexemes {α : Type} [Numeral α] {word : List Char} {kind : TokenKind α}
    (lexes : Lexes word kind) : word ∈ lexemes := by
  cases lexes with
  | number isNumber reads => exact .inl (.inl isNumber)
  | name isName => exact .inl (.inr isName)
  | operator known => exact .inr (mem_symbolForms.mpr ⟨_, mem_symbols_of_operator known, rfl⟩)
  | opening => exact .inr (mem_symbolForms.mpr ⟨'(', by decide, rfl⟩)
  | closing => exact .inr (mem_symbolForms.mpr ⟨')', by decide, rfl⟩)
  | comma => exact .inr (mem_symbolForms.mpr ⟨',', by decide, rfl⟩)

theorem Lexes.unique {α : Type} [Numeral α] {word : List Char} {kind kind' : TokenKind α}
    (first : Lexes word kind) (second : Lexes word kind') : kind = kind' := by
  have operatorNumber : ∀ {c : Char}, c ∈ ['+', '-', '*', '/', '^'] → [c] ∉ numberForms :=
    fun known => not_mem_numberForms_of_symbol (mem_symbols_of_operator known)
  have operatorName : ∀ {c : Char}, c ∈ ['+', '-', '*', '/', '^'] → [c] ∉ nameForms :=
    fun known => not_mem_nameForms_of_symbol (mem_symbols_of_operator known)
  cases first with
  | number isNumber reads =>
    cases second with
    | number isNumber' reads' =>
      cases reads.symm.trans reads'
      rfl
    | name isName => exact absurd isName (not_mem_nameForms_of_number isNumber)
    | operator known => exact absurd isNumber (operatorNumber known)
    | _ => exact absurd isNumber (not_mem_numberForms_of_symbol (by decide))
  | name isName =>
    cases second with
    | number isNumber reads => exact absurd isName (not_mem_nameForms_of_number isNumber)
    | name => rfl
    | operator known => exact absurd isName (operatorName known)
    | _ => exact absurd isName (not_mem_nameForms_of_symbol (by decide))
  | operator known =>
    cases second with
    | number isNumber reads => exact absurd isNumber (operatorNumber known)
    | name isName => exact absurd isName (operatorName known)
    | operator => rfl
    | _ => exact absurd known (by decide)
  | _ =>
    cases second with
    | number isNumber reads => exact absurd isNumber (not_mem_numberForms_of_symbol (by decide))
    | name isName => exact absurd isName (not_mem_nameForms_of_symbol (by decide))
    | operator known => exact absurd known (by decide)
    | _ => rfl

section Lexeme

variable {α : Type} [Numeral α] {c : Char} {behind : List Char}

theorem symbolKind?_eq_some {kind : TokenKind α} (isKind : symbolKind? c = some kind) :
    c ∈ symbols ∧ Lexes [c] kind := by
  unfold symbolKind? at isKind
  split at isKind
  · rename_i same
    cases isKind
    exact ⟨by rw [same]; decide, by rw [same]; exact .opening⟩
  · split at isKind
    · rename_i same
      cases isKind
      exact ⟨by rw [same]; decide, by rw [same]; exact .closing⟩
    · split at isKind
      · rename_i same
        cases isKind
        exact ⟨by rw [same]; decide, by rw [same]; exact .comma⟩
      · split at isKind
        · rename_i known
          cases isKind
          exact ⟨mem_symbols_of_operator known, .operator known⟩
        · cases isKind

omit [Numeral α] in
theorem symbolKind?_eq_none (noKind : symbolKind? (α := α) c = none) : c ∉ symbols := by
  intro known
  simp only [symbols, List.mem_cons, List.not_mem_nil, or_false] at known
  rcases known with rfl | rfl | rfl | rfl | rfl | rfl | rfl | rfl <;> cases noKind

theorem lexeme_longest {found : Lexeme α} (read : lexeme c behind = .ok found) :
    LongestAt lexemes (c :: behind) found.spelled ∧ Lexes found.spelled found.kind := by
  have whole := (lexeme_append read).1
  have begins : found.spelled <+: c :: behind := ⟨found.rest, whole⟩
  unfold lexeme at read
  split at read
  · rename_i starts
    split at read
    · rename_i value isValue
      cases read
      have isSome : (Decimal.split (c :: behind)).value?.isSome = true := by rw [isValue]; rfl
      have isNumber := Decimal.split_spelled_mem isSome
      refine ⟨⟨.inl (.inl isNumber), begins, ?_⟩, ?_⟩
      · intro other isLexeme otherBegins
        rcases lexemes_cons isLexeme otherBegins with ⟨otherNumber, -⟩ | ⟨-, letter⟩ | ⟨-, known⟩
        · exact (Decimal.split_longest otherNumber otherBegins).2
        · rw [isAlpha_of_startsNumber starts] at letter
          cases letter
        · rw [(symbol_starts_nothing known).1] at starts
          cases starts
      · exact .number isNumber ((Decimal.split_spelled_value? isSome).trans isValue)
    · cases read
  · rename_i noNumber
    split at read
    · rename_i letter
      cases read
      have isName : c :: behind.takeWhile Char.isAlphanum ∈ nameForms :=
        mem_nameForms.mpr ⟨c, _, rfl, letter, fun next member => List.mem_takeWhile_imp member⟩
      refine ⟨⟨.inl (.inr isName), begins, ?_⟩, .name isName⟩
      intro other isLexeme otherBegins
      rcases lexemes_cons isLexeme otherBegins with ⟨-, starts⟩ | ⟨otherName, -⟩ | ⟨rfl, -⟩
      · exact absurd starts noNumber
      · rcases mem_nameForms.mp otherName with ⟨first, later, rfl, -, alphanum⟩
        rcases otherBegins with ⟨rest, same⟩
        have behindEq : later ++ rest = behind := (List.cons.inj same).2
        have inRun : later <+: behind.takeWhile Char.isAlphanum := by
          rw [← behindEq, List.takeWhile_append_of_pos alphanum]
          exact ⟨_, rfl⟩
        exact Nat.succ_le_succ inRun.length_le
      · simp only [List.length_cons, List.length_nil]
        omega
    · rename_i noLetter
      split at read
      · rename_i kind isKind
        cases read
        rcases symbolKind?_eq_some isKind with ⟨known, lexes⟩
        refine ⟨⟨lexes.mem_lexemes, begins, ?_⟩, lexes⟩
        intro other isLexeme otherBegins
        rcases lexemes_cons isLexeme otherBegins with ⟨-, starts⟩ | ⟨-, letter⟩ | ⟨rfl, -⟩
        · exact absurd starts noNumber
        · exact absurd letter noLetter
        · exact Nat.le_refl _
      · cases read

theorem no_lexeme_of_error {fault : Fault} (read : lexeme (α := α) c behind = .error fault) :
    ∀ word ∈ lexemes, ¬word <+: c :: behind := by
  intro word isLexeme begins
  unfold lexeme at read
  rcases lexemes_cons isLexeme begins with ⟨isNumber, starts⟩ | ⟨-, letter⟩ | ⟨-, known⟩
  · rw [if_pos starts] at read
    have isSome := (Decimal.split_longest isNumber begins).1
    split at read
    · cases read
    · rename_i isNone
      rw [isNone] at isSome
      cases isSome
  · split at read
    · rename_i starts
      rw [isAlpha_of_startsNumber starts] at letter
      cases letter
    · cases read
  · have nothing := symbol_starts_nothing known
    rw [nothing.1, if_neg Bool.false_ne_true, nothing.2.1, if_neg Bool.false_ne_true] at read
    split at read
    · cases read
    · rename_i noKind
      exact symbolKind?_eq_none noKind known

end Lexeme

/-! ### The reference scan -/

variable {α : Type} [Numeral α]

/-- What the reference scan of a text comes to, whose first character stands at a position: its
tokens, or the position at which it is stuck. -/
inductive Scans : Nat → List Char → Except Nat (List (Token α)) → Prop where
  | finish (position : Nat) : Scans position [] (.ok [⟨.finish, "", position⟩])
  | blank {position : Nat} {c : Char} {behind : List Char} {outcome : Except Nat (List (Token α))}
      (isBlank : isBlank c = true) (later : Scans (position + 1) behind outcome) :
      Scans position (c :: behind) outcome
  | lexeme {position : Nat} {text word rest : List Char} {kind : TokenKind α}
      {outcome : Except Nat (List (Token α))} (textEq : text = word ++ rest)
      (noBlank : ∀ c ∈ text.head?, Tangency.isBlank c = false)
      (longest : LongestAt lexemes text word) (lexes : Lexes word kind)
      (later : Scans (position + word.length) rest outcome) :
      Scans position text (outcome.map (⟨kind, String.ofList word, position⟩ :: ·))
  | stuck {position : Nat} {c : Char} {behind : List Char} (noBlank : Tangency.isBlank c = false)
      (noLexeme : ∀ word ∈ lexemes, ¬word <+: c :: behind) :
      Scans position (c :: behind) (.error position)

theorem Scans.unique {position : Nat} {text : List Char}
    {outcome outcome' : Except Nat (List (Token α))} (first : Scans position text outcome)
    (second : Scans position text outcome') : outcome = outcome' := by
  induction first generalizing outcome' with
  | finish position =>
    cases second with
    | finish => rfl
    | lexeme textEq noBlank longest lexes later => exact absurd longest not_longestAt_nil
  | blank isBlank later ih =>
    cases second with
    | blank isBlank' later' => exact ih later'
    | lexeme textEq noBlank longest lexes later' =>
      rw [noBlank _ rfl] at isBlank
      cases isBlank
    | stuck noBlank noLexeme =>
      rw [noBlank] at isBlank
      cases isBlank
  | lexeme textEq noBlank longest lexes later ih =>
    cases second with
    | finish => exact absurd longest not_longestAt_nil
    | blank isBlank later' =>
      rw [noBlank _ rfl] at isBlank
      cases isBlank
    | lexeme textEq' noBlank' longest' lexes' later' =>
      cases longest.unique longest'
      cases lexes.unique lexes'
      cases List.append_cancel_left (textEq.symm.trans textEq')
      rw [ih later']
    | stuck noBlank' noLexeme => exact absurd longest.begins (noLexeme _ longest.mem)
  | stuck noBlank noLexeme =>
    cases second with
    | blank isBlank later' =>
      rw [noBlank] at isBlank
      cases isBlank
    | lexeme textEq noBlank' longest lexes later' =>
      exact absurd longest.begins (noLexeme _ longest.mem)
    | stuck => rfl

def scanOutcome : Except (Failure α) (List (Token α)) → Option (Except Nat (List (Token α)))
  | .ok tokens => some (.ok tokens)
  | .error (.malformed position _) => some (.error position)
  | .error _ => none

theorem scanFrom_scans (position : Nat) (text : List Char) :
    ∃ outcome, scanOutcome (α := α) (scanFrom position text) = some outcome ∧
      Scans position text outcome := by
  fun_induction scanFrom (α := α) position text with
  | case1 position => exact ⟨_, rfl, .finish position⟩
  | case2 position c behind isBlank ih =>
    rcases ih with ⟨outcome, outcomeEq, scans⟩
    exact ⟨outcome, outcomeEq, .blank isBlank scans⟩
  | case3 position c behind noBlank fault read =>
    exact ⟨_, rfl, .stuck (eq_false_of_ne_true noBlank) (no_lexeme_of_error read)⟩
  | case4 position c behind noBlank found read ih =>
    rcases ih with ⟨outcome, outcomeEq, scans⟩
    rcases lexeme_longest read with ⟨longest, lexes⟩
    have notBlank : ∀ first ∈ (c :: behind).head?, isBlank first = false := by
      intro first isHead
      cases isHead
      exact eq_false_of_ne_true noBlank
    refine ⟨_, ?_, .lexeme (lexeme_append read).1.symm notBlank longest lexes scans⟩
    cases laterEq : scanFrom (α := α) (position + found.spelled.length) found.rest with
    | ok later =>
      rw [laterEq] at outcomeEq
      cases outcomeEq
      rfl
    | error failure =>
      rw [laterEq] at outcomeEq
      cases failure with
      | malformed =>
        cases outcomeEq
        rfl
      | _ => cases outcomeEq

theorem scanOutcome_scanFrom_iff {position : Nat} {text : List Char}
    {outcome : Except Nat (List (Token α))} :
    scanOutcome (scanFrom position text) = some outcome ↔ Scans position text outcome := by
  rcases scanFrom_scans (α := α) position text with ⟨reached, reachedEq, scans⟩
  rw [reachedEq]
  constructor
  · intro same
    cases same
    exact scans
  · intro other
    rw [scans.unique other]

omit [Numeral α] in
theorem scanOutcome_eq_ok_iff {result : Except (Failure α) (List (Token α))}
    {tokens : List (Token α)} : scanOutcome result = some (.ok tokens) ↔ result = .ok tokens := by
  cases result with
  | ok found =>
    constructor
    · intro same
      cases same
      rfl
    · intro same
      cases same
      rfl
  | error failure =>
    constructor
    · intro same
      cases failure <;> cases same
    · intro same
      cases same

theorem scan_eq_ok_iff {source : String} {tokens : List (Token α)} :
    Token.scan source = .ok tokens ↔ Scans 0 source.toList (.ok tokens) :=
  scanOutcome_eq_ok_iff.symm.trans scanOutcome_scanFrom_iff

omit [Numeral α] in
theorem scanOutcome_eq_error_iff {result : Except (Failure α) (List (Token α))} {position : Nat} :
    scanOutcome result = some (.error position) ↔
      ∃ fault, result = .error (.malformed position fault) := by
  cases result with
  | ok found =>
    constructor
    · intro same
      cases same
    · rintro ⟨fault, same⟩
      cases same
  | error failure =>
    constructor
    · intro same
      cases failure with
      | malformed found fault =>
        cases same
        exact ⟨fault, rfl⟩
      | _ => cases same
    · rintro ⟨fault, same⟩
      cases same
      rfl

/-! ### Nothing is lost -/

/-- The tokens cut up a text whose first character stands at the position. -/
structure Cuts (position : Nat) (text : List Char) (body : List (Token α)) : Prop where
  goOn : ∀ token ∈ body, token.isFinish = false
  nonempty : ∀ token ∈ body, token.text ≠ ""
  /-- A token is a slice of the text, and stands at the first character of it. -/
  slices : ∀ token ∈ body, ∃ front rest,
    text = front ++ (token.text.toList ++ rest) ∧ token.position = position + front.length
  /-- The tokens are disjoint and in order. -/
  ordered : body.Pairwise fun first second =>
    first.position + first.text.length ≤ second.position
  /-- A character outside of every token is blank. -/
  outside : ∀ front c rest, text = front ++ c :: rest →
    (∀ token ∈ body, position + front.length < token.position ∨
      token.position + token.text.length ≤ position + front.length) → isBlank c = true

namespace Cuts

omit [Numeral α]

variable {position : Nat} {body : List (Token α)}

theorem nil (position : Nat) : Cuts (α := α) position [] [] where
  goOn := nofun
  nonempty := nofun
  slices := nofun
  ordered := .nil
  outside := by
    intro front c rest impossible
    cases front <;> cases impossible

theorem position_le {text : List Char} (cuts : Cuts position text body) :
    ∀ token ∈ body, position ≤ token.position := by
  intro token member
  rcases cuts.slices token member with ⟨front, rest, -, positionEq⟩
  omega

theorem blank {c : Char} {behind : List Char} (isBlank : isBlank c = true)
    (cuts : Cuts (position + 1) behind body) : Cuts position (c :: behind) body where
  goOn := cuts.goOn
  nonempty := cuts.nonempty
  slices := by
    intro token member
    rcases cuts.slices token member with ⟨front, rest, rfl, positionEq⟩
    refine ⟨c :: front, rest, rfl, ?_⟩
    rw [positionEq, List.length_cons]
    omega
  ordered := cuts.ordered
  outside := by
    intro front other rest textEq uncovered
    cases front with
    | nil =>
      cases textEq
      exact isBlank
    | cons first later =>
      cases textEq
      refine cuts.outside later other rest rfl ?_
      intro token member
      have apart := uncovered token member
      rw [List.length_cons] at apart
      omega

theorem cons {word rest : List Char} {kind : TokenKind α} (nonempty : word ≠ [])
    (goesOn : (⟨kind, String.ofList word, position⟩ : Token α).isFinish = false)
    (cuts : Cuts (position + word.length) rest body) :
    Cuts position (word ++ rest) (⟨kind, String.ofList word, position⟩ :: body) where
  goOn := List.forall_mem_cons.mpr ⟨goesOn, cuts.goOn⟩
  nonempty := by
    refine List.forall_mem_cons.mpr ⟨?_, cuts.nonempty⟩
    exact fun empty => nonempty (String.ofList_eq_empty_iff.mp empty)
  slices := by
    refine List.forall_mem_cons.mpr ⟨⟨[], rest, ?_, rfl⟩, ?_⟩
    · rw [List.nil_append, String.toList_ofList]
    · intro token member
      rcases cuts.slices token member with ⟨front, behind, rfl, positionEq⟩
      refine ⟨word ++ front, behind, (List.append_assoc word front _).symm, ?_⟩
      rw [positionEq, List.length_append]
      omega
  ordered := by
    refine List.pairwise_cons.mpr ⟨?_, cuts.ordered⟩
    intro token member
    rw [String.length_ofList]
    exact cuts.position_le token member
  outside := by
    intro front c behind textEq uncovered
    rcases List.forall_mem_cons.mp uncovered with ⟨outsideFirst, outsideLater⟩
    rw [String.length_ofList] at outsideFirst
    have wordBegins : word <+: front := by
      refine List.prefix_of_prefix_length_le ⟨rest, rfl⟩ ⟨c :: behind, textEq.symm⟩ ?_
      rcases outsideFirst with before | past
      · exact absurd before (Nat.not_lt.mpr (Nat.le_add_right position front.length))
      · exact Nat.le_of_add_le_add_left past
    rcases wordBegins with ⟨later, rfl⟩
    rw [List.append_assoc] at textEq
    refine cuts.outside later c behind (List.append_cancel_left textEq) ?_
    intro token member
    have apart := outsideLater token member
    rw [List.length_append] at apart
    omega

end Cuts

theorem Lexes.goesOn {word : List Char} {kind : TokenKind α} (lexes : Lexes word kind)
    (text : String) (position : Nat) : (⟨kind, text, position⟩ : Token α).isFinish = false := by
  cases lexes <;> rfl

/-- The tokens of the reference scan cut up the text, and `finish` stands at its end. -/
theorem Scans.cuts {position : Nat} {text : List Char} {outcome : Except Nat (List (Token α))}
    (scans : Scans position text outcome) :
    ∀ tokens, outcome = .ok tokens →
      ∃ body, tokens = body ++ [⟨.finish, "", position + text.length⟩] ∧
        Cuts position text body := by
  induction scans with
  | finish position =>
    intro tokens same
    cases same
    exact ⟨[], rfl, .nil position⟩
  | blank isBlank later ih =>
    intro tokens same
    rcases ih tokens same with ⟨body, rfl, cuts⟩
    refine ⟨body, ?_, cuts.blank isBlank⟩
    rw [List.length_cons, Nat.add_assoc, Nat.add_comm 1]
  | @lexeme position text word rest kind outcome textEq noBlank longest lexes later ih =>
    intro tokens same
    cases outcome with
    | error stuckAt => cases same
    | ok laterTokens =>
      cases same
      rcases ih laterTokens rfl with ⟨body, rfl, cuts⟩
      subst textEq
      refine ⟨_ :: body, ?_, cuts.cons (ne_nil_of_mem_lexemes longest.mem) (lexes.goesOn _ _)⟩
      rw [List.length_append, List.cons_append, Nat.add_assoc]
  | stuck noBlank noLexeme =>
    intro tokens impossible
    cases impossible

theorem Scans.lexes {position : Nat} {text : List Char} {outcome : Except Nat (List (Token α))}
    (scans : Scans position text outcome) :
    ∀ tokens, outcome = .ok tokens → ∃ body stop, tokens = body ++ [⟨.finish, "", stop⟩] ∧
      ∀ token ∈ body, Lexes token.text.toList token.kind := by
  induction scans with
  | finish position =>
    intro tokens same
    cases same
    exact ⟨[], position, rfl, nofun⟩
  | blank isBlank later ih => exact ih
  | @lexeme position text word rest kind outcome textEq noBlank longest lexes later ih =>
    intro tokens same
    cases outcome with
    | error stuckAt => cases same
    | ok laterTokens =>
      cases same
      obtain ⟨body, stop, rfl, laterLex⟩ := ih laterTokens rfl
      refine ⟨_ :: body, stop, rfl, List.forall_mem_cons.mpr ⟨?_, laterLex⟩⟩
      rw [String.toList_ofList]
      exact lexes
  | stuck noBlank noLexeme =>
    intro tokens impossible
    cases impossible

/-- A text is scanned exactly as by the reference, which takes the longest lexeme at each place that
is not blank: it yields the same tokens, or fails at the position at which the reference is stuck.
The tokens cut up the text, and one `finish` stands behind them at the length of the text. -/
theorem scan_is_longest_match (source : String) :
    (∀ tokens : List (Token α),
      Token.scan source = .ok tokens ↔ Scans 0 source.toList (.ok tokens)) ∧
    (∀ position, (∃ fault, Token.scan (α := α) source = .error (.malformed position fault)) ↔
      Scans (α := α) 0 source.toList (.error position)) ∧
    (∀ failure, Token.scan (α := α) source = .error failure →
      ∃ position fault, failure = .malformed position fault) ∧
    (∀ tokens : List (Token α), Token.scan source = .ok tokens →
      ∃ body, tokens = body ++ [⟨.finish, "", source.length⟩] ∧ Cuts 0 source.toList body) := by
  have sameTokens : ∀ tokens : List (Token α),
      Token.scan source = .ok tokens ↔ Scans 0 source.toList (.ok tokens) := fun tokens =>
    scanOutcome_eq_ok_iff.symm.trans scanOutcome_scanFrom_iff
  refine ⟨sameTokens, fun position => scanOutcome_eq_error_iff.symm.trans scanOutcome_scanFrom_iff,
    ?_, ?_⟩
  · intro failure failed
    rcases scanFrom_scans (α := α) 0 source.toList with ⟨outcome, outcomeEq, -⟩
    rw [show scanFrom (α := α) 0 source.toList = .error failure from failed] at outcomeEq
    cases failure with
    | malformed position fault => exact ⟨position, fault, rfl⟩
    | _ => cases outcomeEq
  · intro tokens scanned
    rcases ((sameTokens tokens).mp scanned).cuts tokens rfl with ⟨body, rfl, cuts⟩
    refine ⟨body, ?_, cuts⟩
    rw [Nat.zero_add, String.length_toList]

end Tangency
