/-
How a text is scanned piece by piece.

A piece is scanned as some tokens wherever it stands, in front of everything that does not
go on with its last lexeme.  Pieces are put together from the left, and each lexeme is one,
so the tokens of a text that was written by parts are found by parts.
-/

import Tangency.Proofs.LongestMatch

namespace Tangency

variable {α : Type} [Numeral α]

/-- What goes on with no name and with no number. -/
def Apart (rest : List Char) : Prop := ∀ c ∈ rest.head?, c.isAlphanum = false ∧ c ≠ '.'

theorem Apart.append {written rest : List Char} (apart : Apart written) (nonempty : written ≠ []) :
    Apart (written ++ rest) := by
  cases written with
  | nil => exact absurd rfl nonempty
  | cons c later =>
    intro first isHead
    exact apart first isHead

theorem Apart.endsNumber {rest : List Char} (apart : Apart rest) : Decimal.EndsNumber rest := by
  intro c isHead
  have outside := (apart c isHead).1
  rw [Char.isAlphanum, Bool.or_eq_false_iff] at outside
  refine ⟨outside.2, (apart c isHead).2, ?_, ?_⟩
  · intro same
    rw [same] at outside
    exact absurd outside.1 (by decide)
  · intro same
    rw [same] at outside
    exact absurd outside.1 (by decide)

theorem apart_of_symbol {c : Char} (known : c ∈ symbols) (rest : List Char) :
    Apart (c :: rest) := by
  intro first isHead
  cases isHead
  simp only [symbols, List.mem_cons, List.not_mem_nil, or_false] at known
  rcases known with rfl | rfl | rfl | rfl | rfl | rfl | rfl | rfl <;> decide

theorem not_isBlank_of_isAlphanum {c : Char} (alphanum : c.isAlphanum = true) :
    isBlank c = false := by
  have bounds : 48 ≤ c.toNat ∧ c.toNat ≤ 122 := by
    rcases Bool.or_eq_true_iff.mp alphanum with letter | digit
    · have letterBounds := isAlpha_bounds letter
      omega
    · have digitBounds : 48 ≤ c.toNat ∧ c.toNat ≤ 57 := Char.isDigit_iff_toNat.mp digit
      omega
  simp only [isBlank, blankRanges, List.any_cons, List.any_nil, Bool.or_false, Bool.or_eq_false_iff,
    decide_eq_false_iff_not]
  omega

theorem apart_of_blank {c : Char} (rest : List Char) (blank : isBlank c = true) :
    Apart (c :: rest) := by
  intro first isHead
  cases isHead
  constructor
  · rw [Bool.eq_false_iff]
    intro alphanum
    rw [not_isBlank_of_isAlphanum alphanum] at blank
    cases blank
  · rintro rfl
    cases blank

/-- The characters are scanned as the tokens, in front of everything that stands apart. -/
def ScansAs (position : Nat) (written : List Char) (tokens : List (Token α)) : Prop :=
  ∀ rest, Apart rest → scanFrom position (written ++ rest) =
    (scanFrom (position + written.length) rest).map (tokens ++ ·)

theorem scanFrom_lexeme {position : Nat} {c : Char} {behind : List Char} {found : Lexeme α}
    (noBlank : isBlank c = false) (read : lexeme c behind = .ok found) :
    scanFrom position (c :: behind) =
      (scanFrom (position + found.spelled.length) found.rest).map
        ([⟨found.kind, String.ofList found.spelled, position⟩] ++ ·) := by
  rw [scanFrom, if_neg (ne_true_of_eq_false noBlank)]
  split
  · rename_i fault failed
    rw [read] at failed
    cases failed
  · rename_i other otherRead
    cases read.symm.trans otherRead
    cases scanFrom (α := α) (position + found.spelled.length) found.rest <;> rfl

theorem scanFrom_blanks {gap : List Char} (blank : ∀ c ∈ gap, isBlank c = true) (position : Nat)
    (rest : List Char) :
    scanFrom (α := α) position (gap ++ rest) = scanFrom (position + gap.length) rest := by
  induction gap generalizing position with
  | nil => rfl
  | cons c gap ih =>
    obtain ⟨isBlank, later⟩ := List.forall_mem_cons.mp blank
    rw [List.cons_append, scanFrom, if_pos isBlank, ih later, List.length_cons, Nat.add_assoc,
      Nat.add_comm 1]

namespace ScansAs

variable {position : Nat} {written : List Char} {tokens : List (Token α)}

theorem nil (position : Nat) : ScansAs position [] ([] : List (Token α)) := by
  intro rest apart
  change scanFrom position rest = (scanFrom position rest).map fun later => later
  cases scanFrom (α := α) position rest <;> rfl

theorem blank {c : Char} (isBlank : isBlank c = true)
    (scans : ScansAs (position + 1) written tokens) : ScansAs position (c :: written) tokens := by
  intro rest apart
  rw [List.cons_append, scanFrom, if_pos isBlank, scans rest apart, List.length_cons, Nat.add_assoc,
    Nat.add_comm 1]

theorem symbol {c : Char} {kind : TokenKind α} (isKind : symbolKind? c = some kind)
    (scans : ScansAs (position + 1) written tokens) :
    ScansAs position (c :: written) (⟨kind, String.ofList [c], position⟩ :: tokens) := by
  intro rest apart
  have nothing := symbol_starts_nothing (symbolKind?_eq_some isKind).1
  have read : lexeme c (written ++ rest) = .ok ⟨kind, [c], written ++ rest⟩ := by
    rw [lexeme, nothing.1, if_neg Bool.false_ne_true, nothing.2.1, if_neg Bool.false_ne_true,
      isKind]
  rw [List.cons_append, scanFrom_lexeme nothing.2.2 read, List.length_singleton, scans rest apart,
    List.length_cons, Nat.add_assoc, Nat.add_comm 1]
  cases scanFrom (α := α) (position + (written.length + 1)) rest <;> rfl

theorem append {later : List Char} {laterTokens : List (Token α)}
    (scans : ScansAs position written tokens)
    (scansLater : ScansAs (position + written.length) later laterTokens)
    (nonempty : later ≠ []) (apart : Apart later) :
    ScansAs position (written ++ later) (tokens ++ laterTokens) := by
  intro rest restApart
  rw [List.append_assoc, scans _ (apart.append nonempty), scansLater rest restApart,
    List.length_append, Nat.add_assoc]
  cases scanFrom (α := α) (position + (written.length + later.length)) rest with
  | error failure => rfl
  | ok found => exact congrArg Except.ok (List.append_assoc tokens laterTokens found).symm

theorem name {word : List Char} (isName : word ∈ nameForms) :
    ScansAs position word [(⟨.name, String.ofList word, position⟩ : Token α)] := by
  intro rest apart
  rcases mem_nameForms.mp isName with ⟨c, later, rfl, letter, alphanum⟩
  have cut := takeWhile_run alphanum rest fun next isHead => (apart next isHead).1
  have noNumber : ¬(c.isDigit || c == '.') = true := by
    intro starts
    rw [isAlpha_of_startsNumber starts] at letter
    cases letter
  have noBlank : isBlank c = false :=
    not_isBlank_of_isAlphanum (by rw [Char.isAlphanum, letter]; rfl)
  have read : lexeme (α := α) c (later ++ rest) = .ok ⟨.name, c :: later, rest⟩ := by
    rw [lexeme, if_neg noNumber, if_pos letter, cut.1, cut.2]
  exact scanFrom_lexeme noBlank read

theorem number {word : List Char} {value : Decimal} (isNumber : word ∈ numberForms)
    (reads : (Decimal.split word).value? = some value) :
    ScansAs position word
      [(⟨.number (Numeral.ofDecimal value), String.ofList word, position⟩ : Token α)] := by
  intro rest apart
  rcases startsNumber isNumber with ⟨c, later, rfl, starts⟩
  have cut := Decimal.split_append_of_mem isNumber apart.endsNumber
  have noBlank : isBlank c = false := by
    rcases Bool.or_eq_true_iff.mp starts with isDigit | isPoint
    · exact not_isBlank_of_isAlphanum (by rw [Char.isAlphanum, isDigit, Bool.or_true])
    · rw [eq_of_beq isPoint]
      decide
  have read : lexeme (α := α) c (later ++ rest) =
      .ok ⟨.number (Numeral.ofDecimal value), c :: later, rest⟩ := by
    rw [List.cons_append] at cut
    rw [lexeme, if_pos starts, cut, reads]
  exact scanFrom_lexeme noBlank read

theorem lexes {word : List Char} {kind : TokenKind α} (lexes : Lexes word kind) :
    ScansAs position word [⟨kind, String.ofList word, position⟩] := by
  cases lexes with
  | number isNumber reads => exact number isNumber reads
  | name isName => exact name isName
  | @operator symbol known =>
    have isOperator : symbolKind? (α := α) symbol = some (.operator symbol) := by
      simp only [List.mem_cons, List.not_mem_nil, or_false] at known
      rcases known with rfl | rfl | rfl | rfl | rfl <;> rfl
    exact ScansAs.symbol isOperator (.nil _)
  | opening => exact ScansAs.symbol rfl (.nil _)
  | closing => exact ScansAs.symbol rfl (.nil _)
  | comma => exact ScansAs.symbol rfl (.nil _)

theorem scan_eq {source : String} (scans : ScansAs 0 source.toList tokens) :
    Token.scan source = .ok (tokens ++ [⟨.finish, "", source.length⟩]) := by
  have whole := scans [] nofun
  rw [List.append_nil, scanFrom, Nat.zero_add, String.length_toList] at whole
  exact whole

end ScansAs

end Tangency
