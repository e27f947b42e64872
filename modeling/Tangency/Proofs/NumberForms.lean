/-
The number forms of formulas as a regular language, and how they are read.

A number form is `(D+ ('.' D*)? | '.' D+) ([eE] [+-]? D+)?` for decimal digits `D`.  Reading
the front of a text yields the longest word of this language there, and fails where no word
of it begins the text.  The reader looks ahead over a mark and a sign and backs off where no
digit follows, so this is not the language read letter by letter.

A word that is cut out reads to the same number as it did in its text.
-/

import Mathlib.Computability.Language
import Mathlib.Data.List.TakeWhile
import Tangency.Numeric.Decimal

namespace Tangency

open scoped Computability

def oneChar (holds : Char → Bool) : Language Char := {word | ∃ c, holds c = true ∧ word = [c]}

theorem singleton_mem_oneChar {holds : Char → Bool} {c : Char} :
    [c] ∈ oneChar holds ↔ holds c = true := by
  constructor
  · rintro ⟨found, isSuch, same⟩
    cases same
    exact isSuch
  · intro isSuch
    exact ⟨c, isSuch, rfl⟩

theorem mem_oneChar_kstar {holds : Char → Bool} {word : List Char} :
    word ∈ (oneChar holds)∗ ↔ ∀ c ∈ word, holds c = true := by
  constructor
  · intro inStar
    rcases Language.mem_kstar.mp inStar with ⟨parts, rfl, single⟩
    intro c member
    rcases List.mem_flatten.mp member with ⟨part, partMember, inPart⟩
    rcases single part partMember with ⟨found, isSuch, rfl⟩
    rw [List.mem_singleton.mp inPart]
    exact isSuch
  · intro all
    induction word with
    | nil => exact Language.nil_mem_kstar _
    | cons c later ih =>
      have first := singleton_mem_oneChar.mpr (all c List.mem_cons_self)
      have behind := ih fun next member => all next (List.mem_cons_of_mem c member)
      rcases Language.mem_kstar.mp behind with ⟨parts, rfl, single⟩
      refine Language.mem_kstar.mpr ⟨[c] :: parts, rfl, ?_⟩
      intro part member
      rcases List.mem_cons.mp member with rfl | inParts
      · exact first
      · exact single part inParts

theorem takeWhile_run {holds : Char → Bool} {run : List Char}
    (all : ∀ c ∈ run, holds c = true) (later : List Char)
    (stops : ∀ c ∈ later.head?, holds c = false) :
    (run ++ later).takeWhile holds = run ∧ (run ++ later).dropWhile holds = later := by
  rw [List.takeWhile_append_of_pos all, List.dropWhile_append_of_pos all]
  cases later with
  | nil => exact ⟨List.append_nil run, rfl⟩
  | cons c behind =>
    have other := stops c rfl
    rw [List.takeWhile_cons_of_neg (ne_true_of_eq_false other),
      List.dropWhile_cons_of_neg (ne_true_of_eq_false other)]
    exact ⟨List.append_nil run, rfl⟩

theorem run_begins {holds : Char → Bool} {run later text : List Char}
    (all : ∀ c ∈ run, holds c = true) (stops : ∀ c ∈ later.head?, holds c = false)
    (begins : run ++ later <+: text) :
    (later = [] ∧ run <+: text.takeWhile holds) ∨
      (run = text.takeWhile holds ∧ later <+: text.dropWhile holds) := by
  rcases begins with ⟨rest, rfl⟩
  cases later with
  | nil =>
    refine .inl ⟨rfl, ?_⟩
    rw [List.append_nil, List.takeWhile_append_of_pos all]
    exact ⟨_, rfl⟩
  | cons c behind =>
    have cut := takeWhile_run all (c :: behind ++ rest) stops
    rw [List.append_assoc]
    exact .inr ⟨cut.1.symm, rest, cut.2.symm⟩

def digitChar : Language Char := oneChar Char.isDigit

def digitRun : Language Char := digitChar * digitChar∗

def pointChar : Language Char := oneChar fun c => c == '.'

/-- `D+ ('.' D*)? | '.' D+` -/
def mantissa : Language Char := digitRun * (1 + pointChar * digitChar∗) + pointChar * digitRun

/-- `[eE] [+-]? D+` -/
def exponentPart : Language Char :=
  oneChar (fun c => c == 'e' || c == 'E') *
    ((1 + oneChar fun c => c == '+' || c == '-') * digitRun)

def numberForms : Language Char := mantissa * (1 + exponentPart)

def Digits (word : List Char) : Prop := ∀ c ∈ word, c.isDigit = true

theorem Digits.append {first second : List Char} (digits : Digits first) (later : Digits second) :
    Digits (first ++ second) := by
  intro c member
  rcases List.mem_append.mp member with inFirst | inSecond
  · exact digits c inFirst
  · exact later c inSecond

theorem mem_digitRun {word : List Char} : word ∈ digitRun ↔ Digits word ∧ word ≠ [] := by
  rw [digitRun, Language.mem_mul]
  constructor
  · rintro ⟨first, ⟨c, isDigit, rfl⟩, later, inStar, rfl⟩
    refine ⟨?_, List.cons_ne_nil c later⟩
    intro next member
    rcases List.mem_cons.mp member with rfl | inLater
    · exact isDigit
    · exact mem_oneChar_kstar.mp inStar next inLater
  · rintro ⟨digits, nonempty⟩
    cases word with
    | nil => exact absurd rfl nonempty
    | cons c later =>
      refine ⟨[c], singleton_mem_oneChar.mpr (digits c List.mem_cons_self), later, ?_, rfl⟩
      exact mem_oneChar_kstar.mpr fun next member => digits next (List.mem_cons_of_mem c member)

def FractionForm (word : List Char) : Prop :=
  word = [] ∨ ∃ places, Digits places ∧ word = '.' :: places

def ExponentForm (word : List Char) : Prop :=
  word = [] ∨ ∃ mark sign digits, (mark = 'e' ∨ mark = 'E') ∧
    (sign = [] ∨ sign = ['+'] ∨ sign = ['-']) ∧ Digits digits ∧ digits ≠ [] ∧
      word = mark :: (sign ++ digits)

/-- The parts of a number form. There is a digit before the exponent. -/
structure NumberForm (whole fraction exponent : List Char) : Prop where
  wholeDigits : Digits whole
  fractionForm : FractionForm fraction
  exponentForm : ExponentForm exponent
  digit : whole ++ fraction.drop 1 ≠ []

theorem mem_mantissa {word : List Char} :
    word ∈ mantissa ↔ ∃ whole fraction, word = whole ++ fraction ∧ Digits whole ∧
      FractionForm fraction ∧ whole ++ fraction.drop 1 ≠ [] := by
  rw [mantissa, Language.mem_add, Language.mem_mul, Language.mem_mul]
  constructor
  · rintro (⟨whole, inRun, fraction, inFraction, rfl⟩ |
      ⟨_, ⟨c, isPoint, rfl⟩, places, inRun, rfl⟩)
    · rcases mem_digitRun.mp inRun with ⟨digits, nonempty⟩
      refine ⟨whole, fraction, rfl, digits, ?_, List.append_ne_nil_of_left_ne_nil nonempty _⟩
      rcases (Language.mem_add _ _ _).mp inFraction with none | some
      · exact .inl none
      · rcases Language.mem_mul.mp some with ⟨_, ⟨c, isPoint, rfl⟩, places, inStar, rfl⟩
        rw [eq_of_beq isPoint]
        exact .inr ⟨places, mem_oneChar_kstar.mp inStar, rfl⟩
    · rcases mem_digitRun.mp inRun with ⟨digits, nonempty⟩
      refine ⟨[], '.' :: places, ?_, nofun, .inr ⟨places, digits, rfl⟩, nonempty⟩
      rw [eq_of_beq isPoint]
      rfl
  · rintro ⟨whole, fraction, rfl, digits, fractionForm, nonempty⟩
    by_cases noWhole : whole = []
    · subst noWhole
      rcases fractionForm with rfl | ⟨places, placeDigits, rfl⟩
      · exact absurd rfl nonempty
      · exact .inr ⟨['.'], singleton_mem_oneChar.mpr rfl, places,
          mem_digitRun.mpr ⟨placeDigits, nonempty⟩, rfl⟩
    · refine .inl ⟨whole, mem_digitRun.mpr ⟨digits, noWhole⟩, fraction, ?_, rfl⟩
      rcases fractionForm with rfl | ⟨places, placeDigits, rfl⟩
      · exact .inl rfl
      · exact .inr ⟨['.'], singleton_mem_oneChar.mpr rfl, places,
          mem_oneChar_kstar.mpr placeDigits, rfl⟩

theorem mem_one_add_exponentPart {word : List Char} :
    word ∈ 1 + exponentPart ↔ ExponentForm word := by
  rw [Language.mem_add, Language.mem_one, exponentPart, ExponentForm]
  refine or_congr_right ?_
  constructor
  · intro inPart
    rcases Language.mem_mul.mp inPart with ⟨_, ⟨mark, isMark, rfl⟩, _, inRest, rfl⟩
    rcases Language.mem_mul.mp inRest with ⟨sign, inSign, digits, inRun, rfl⟩
    rcases mem_digitRun.mp inRun with ⟨isDigits, nonempty⟩
    refine ⟨mark, sign, digits, ?_, ?_, isDigits, nonempty, rfl⟩
    · simpa using isMark
    · rcases (Language.mem_add _ _ _).mp inSign with none | ⟨c, isSign, rfl⟩
      · exact .inl none
      · have signs : c = '+' ∨ c = '-' := by simpa using isSign
        rcases signs with rfl | rfl
        · exact .inr (.inl rfl)
        · exact .inr (.inr rfl)
  · rintro ⟨mark, sign, digits, isMark, isSign, isDigits, nonempty, rfl⟩
    refine Language.mem_mul.mpr ⟨[mark], singleton_mem_oneChar.mpr ?_, sign ++ digits, ?_, rfl⟩
    · simpa using isMark
    · refine Language.mem_mul.mpr ⟨sign, ?_, digits, mem_digitRun.mpr ⟨isDigits, nonempty⟩, rfl⟩
      rcases isSign with rfl | rfl | rfl
      · exact .inl rfl
      · exact .inr (singleton_mem_oneChar.mpr rfl)
      · exact .inr (singleton_mem_oneChar.mpr rfl)

theorem mem_numberForms {word : List Char} :
    word ∈ numberForms ↔ ∃ whole fraction exponent,
      word = whole ++ (fraction ++ exponent) ∧ NumberForm whole fraction exponent := by
  rw [numberForms, Language.mem_mul]
  constructor
  · rintro ⟨front, inMantissa, exponent, inExponent, rfl⟩
    rcases mem_mantissa.mp inMantissa with ⟨whole, fraction, rfl, digits, isFraction, digit⟩
    have isExponent := mem_one_add_exponentPart.mp inExponent
    exact ⟨whole, fraction, exponent, List.append_assoc _ _ _,
      ⟨digits, isFraction, isExponent, digit⟩⟩
  · rintro ⟨whole, fraction, exponent, rfl, form⟩
    refine ⟨whole ++ fraction, ?_, exponent, mem_one_add_exponentPart.mpr form.exponentForm,
      List.append_assoc _ _ _⟩
    exact mem_mantissa.mpr ⟨whole, fraction, rfl, form.wholeDigits, form.fractionForm, form.digit⟩

theorem head?_exponent {exponent : List Char} (form : ExponentForm exponent) :
    ∀ c ∈ exponent.head?, c = 'e' ∨ c = 'E' := by
  rcases form with rfl | ⟨mark, sign, digits, isMark, -, -, -, rfl⟩
  · exact nofun
  · intro c isHead
    cases isHead
    exact isMark

theorem head?_fraction {fraction exponent : List Char} (fractionForm : FractionForm fraction)
    (exponentForm : ExponentForm exponent) :
    ∀ c ∈ (fraction ++ exponent).head?, c = '.' ∨ c = 'e' ∨ c = 'E' := by
  rcases fractionForm with rfl | ⟨places, -, rfl⟩
  · intro c isHead
    exact .inr (head?_exponent exponentForm c isHead)
  · intro c isHead
    cases isHead
    exact .inl rfl

theorem isDigit_mark {c : Char} (isMark : c = 'e' ∨ c = 'E') : c.isDigit = false := by
  rcases isMark with rfl | rfl <;> rfl

theorem isDigit_point_or_mark {c : Char} (isSuch : c = '.' ∨ c = 'e' ∨ c = 'E') :
    c.isDigit = false := by
  rcases isSuch with rfl | isMark
  · rfl
  · exact isDigit_mark isMark

namespace Decimal

/-! ### The longest form is read -/

theorem splitSign_form {sign digits : List Char}
    (isSign : sign = [] ∨ sign = ['+'] ∨ sign = ['-']) (isDigits : Digits digits)
    (nonempty : digits ≠ []) (rest : List Char) :
    splitSign (sign ++ digits ++ rest) = (sign, digits ++ rest) := by
  rcases isSign with rfl | rfl | rfl
  · cases digits with
    | nil => exact absurd rfl nonempty
    | cons c later =>
      have isDigit := isDigits c List.mem_cons_self
      have noPlus : c ≠ '+' := fun same => by rw [same] at isDigit; cases isDigit
      have noMinus : c ≠ '-' := fun same => by rw [same] at isDigit; cases isDigit
      simp only [splitSign, List.nil_append, List.cons_append]
      split
      · rename_i same
        cases same
        exact absurd rfl noPlus
      · rename_i same
        cases same
        exact absurd rfl noMinus
      · rfl
  · rfl
  · rfl

theorem exponent_le {exponent text : List Char} (form : ExponentForm exponent)
    (begins : exponent <+: text) : exponent.length ≤ (splitExponent text).1.length := by
  rcases form with rfl | ⟨mark, sign, digits, isMark, isSign, isDigits, nonempty, rfl⟩
  · exact Nat.zero_le _
  · rcases begins with ⟨rest, rfl⟩
    have cut := splitSign_form isSign isDigits nonempty rest
    have runEq : (digits ++ rest).takeWhile Char.isDigit = digits ++ rest.takeWhile Char.isDigit :=
      List.takeWhile_append_of_pos isDigits
    have found : (digits ++ rest.takeWhile Char.isDigit).isEmpty = false := by
      rw [List.isEmpty_eq_false_iff]
      exact List.append_ne_nil_of_left_ne_nil nonempty _
    simp only [List.cons_append, splitExponent, if_pos isMark, cut, runEq, found,
      Bool.false_eq_true, if_false, List.length_cons, List.length_append]
    omega

theorem fraction_begins {fraction exponent text : List Char} (fractionForm : FractionForm fraction)
    (exponentForm : ExponentForm exponent) (begins : fraction ++ exponent <+: text) :
    (exponent = [] ∧ fraction <+: (splitFraction text).1) ∨
      (fraction = (splitFraction text).1 ∧ exponent <+: (splitFraction text).2) := by
  rcases fractionForm with rfl | ⟨places, isDigits, rfl⟩
  · rcases exponentForm with rfl | ⟨mark, sign, digits, isMark, -, -, -, rfl⟩
    · exact .inl ⟨rfl, _, rfl⟩
    · rcases begins with ⟨rest, rfl⟩
      have noPoint : mark ≠ '.' := by
        rcases isMark with rfl | rfl <;> decide
      refine .inr ?_
      have apart : splitFraction (mark :: (sign ++ digits) ++ rest) =
          ([], mark :: (sign ++ digits) ++ rest) := by
        unfold splitFraction
        split
        · rename_i same
          cases same
          exact absurd rfl noPoint
        · rfl
      rw [List.nil_append, apart]
      exact ⟨rfl, rest, rfl⟩
  · rcases begins with ⟨rest, rfl⟩
    have stops : ∀ c ∈ exponent.head?, c.isDigit = false :=
      fun c isHead => isDigit_mark (head?_exponent exponentForm c isHead)
    have inside : places ++ exponent <+: places ++ exponent ++ rest := ⟨rest, rfl⟩
    simp only [List.cons_append, splitFraction]
    rcases run_begins isDigits stops inside with ⟨none, short⟩ | ⟨whole, behind⟩
    · exact .inl ⟨none, (List.prefix_cons_inj '.').mpr short⟩
    · exact .inr ⟨congrArg ('.' :: ·) whole, behind⟩

theorem form_le {whole fraction exponent text : List Char}
    (form : NumberForm whole fraction exponent)
    (begins : whole ++ (fraction ++ exponent) <+: text) :
    whole <+: text.takeWhile Char.isDigit ∧
      fraction <+: (splitFraction (text.dropWhile Char.isDigit)).1 ∧
      exponent.length ≤
        (splitExponent (splitFraction (text.dropWhile Char.isDigit)).2).1.length := by
  have stops : ∀ c ∈ (fraction ++ exponent).head?, c.isDigit = false := fun c isHead =>
    isDigit_point_or_mark (head?_fraction form.fractionForm form.exponentForm c isHead)
  rcases run_begins form.wholeDigits stops begins with ⟨none, short⟩ | ⟨wholeEq, behind⟩
  · rcases List.append_eq_nil_iff.mp none with ⟨rfl, rfl⟩
    exact ⟨short, ⟨_, rfl⟩, Nat.zero_le _⟩
  · rcases fraction_begins form.fractionForm form.exponentForm behind with
      ⟨rfl, short⟩ | ⟨fractionEq, exponentBegins⟩
    · exact ⟨⟨[], by rw [wholeEq, List.append_nil]⟩, short, Nat.zero_le _⟩
    · exact ⟨⟨[], by rw [wholeEq, List.append_nil]⟩, ⟨[], by rw [fractionEq, List.append_nil]⟩,
        exponent_le form.exponentForm exponentBegins⟩

theorem split_value?_isSome (text : List Char) :
    (split text).value?.isSome = true ↔ text.takeWhile Char.isDigit ++
      (splitFraction (text.dropWhile Char.isDigit)).1.drop 1 ≠ [] := by
  simp only [split]
  split
  · rename_i empty
    rw [List.isEmpty_iff] at empty
    simp only [empty, Option.isSome_none, Bool.false_eq_true, ne_eq, not_true_eq_false]
  · rename_i nonempty
    rw [List.isEmpty_iff] at nonempty
    simp only [nonempty, Option.isSome_some, ne_eq, not_false_eq_true]

/-- No number form at the front of a text is longer than what is read, and if there is one, what is
read has a digit. -/
theorem split_longest {text word : List Char} (isNumber : word ∈ numberForms)
    (begins : word <+: text) :
    (split text).value?.isSome = true ∧ word.length ≤ (split text).spelled.length := by
  rcases mem_numberForms.mp isNumber with ⟨whole, fraction, exponent, rfl, form⟩
  rcases form_le form begins with ⟨wholeBegins, fractionBegins, exponentShort⟩
  constructor
  · rw [split_value?_isSome]
    intro none
    rcases List.append_eq_nil_iff.mp none with ⟨noWhole, noPlaces⟩
    have wholeEq : whole = [] := List.prefix_nil.mp (noWhole ▸ wholeBegins)
    have placesEq : fraction.drop 1 = [] := by
      have := fractionBegins.length_le
      rw [List.drop_eq_nil_iff] at noPlaces ⊢
      omega
    exact form.digit (by rw [wholeEq, placesEq]; rfl)
  · have := wholeBegins.length_le
    have := fractionBegins.length_le
    simp only [split, List.length_append]
    omega

theorem splitFraction_form (text : List Char) : FractionForm (splitFraction text).1 := by
  unfold splitFraction
  split
  · exact .inr ⟨_, fun c member => List.mem_takeWhile_imp member, rfl⟩
  · exact .inl rfl

theorem splitSign_isSign (text : List Char) :
    (splitSign text).1 = [] ∨ (splitSign text).1 = ['+'] ∨ (splitSign text).1 = ['-'] := by
  unfold splitSign
  split
  · exact .inr (.inl rfl)
  · exact .inr (.inr rfl)
  · exact .inl rfl

theorem splitExponent_form (text : List Char) : ExponentForm (splitExponent text).1 := by
  unfold splitExponent
  split
  · rename_i mark behind
    split
    · rename_i isMark
      simp only
      split
      · exact .inl rfl
      · rename_i nonempty
        rw [List.isEmpty_iff] at nonempty
        exact .inr ⟨mark, _, _, isMark, splitSign_isSign behind,
          fun c member => List.mem_takeWhile_imp member, nonempty, rfl⟩
    · exact .inl rfl
  · exact .inl rfl

theorem split_numberForm {text : List Char} (found : (split text).value?.isSome = true) :
    NumberForm (text.takeWhile Char.isDigit) (splitFraction (text.dropWhile Char.isDigit)).1
      (splitExponent (splitFraction (text.dropWhile Char.isDigit)).2).1 := by
  refine ⟨?_, splitFraction_form _, splitExponent_form _, (split_value?_isSome text).mp found⟩
  intro c member
  exact List.mem_takeWhile_imp member

theorem split_spelled_mem {text : List Char} (found : (split text).value?.isSome = true) :
    (split text).spelled ∈ numberForms :=
  mem_numberForms.mpr ⟨_, _, _, rfl, split_numberForm found⟩

def EndsNumber (rest : List Char) : Prop :=
  ∀ c ∈ rest.head?, c.isDigit = false ∧ c ≠ '.' ∧ c ≠ 'e' ∧ c ≠ 'E'

theorem splitExponent_mark {mark : Char} {sign digits : List Char}
    (isMark : mark = 'e' ∨ mark = 'E') (isSign : sign = [] ∨ sign = ['+'] ∨ sign = ['-'])
    (isDigits : Digits digits) (nonempty : digits ≠ []) (behind : List Char)
    (stops : ∀ c ∈ behind.head?, c.isDigit = false) :
    splitExponent (mark :: (sign ++ digits) ++ behind) =
      (mark :: (sign ++ digits), signedDigits sign digits, behind) := by
  have found : digits.isEmpty = false := List.isEmpty_eq_false_iff.mpr nonempty
  have cut := splitSign_form isSign isDigits nonempty behind
  have run := takeWhile_run isDigits _ stops
  simp only [List.cons_append, splitExponent, if_pos isMark, cut, run, found, Bool.false_eq_true,
    if_false]

theorem splitExponent_before {exponent rest : List Char} (form : ExponentForm exponent)
    (ends : EndsNumber rest) :
    splitExponent (exponent ++ rest) = (exponent, (splitExponent exponent).2.1, rest) := by
  rcases form with rfl | ⟨mark, sign, digits, isMark, isSign, isDigits, nonempty, rfl⟩
  · cases rest with
    | nil => rfl
    | cons c behind =>
      have noMark : ¬(c = 'e' ∨ c = 'E') := by
        have := ends c rfl
        tauto
      simp only [List.nil_append, splitExponent, if_neg noMark]
  · have alone := splitExponent_mark isMark isSign isDigits nonempty [] nofun
    rw [List.append_nil] at alone
    rw [alone]
    exact splitExponent_mark isMark isSign isDigits nonempty rest fun c isHead => (ends c isHead).1

theorem splitExponent_spelled (text : List Char) :
    (splitExponent (splitExponent text).1).2.1 = (splitExponent text).2.1 := by
  cases text with
  | nil => rfl
  | cons mark behind =>
    by_cases isMark : mark = 'e' ∨ mark = 'E'
    · by_cases none : ((splitSign behind).2.takeWhile Char.isDigit).isEmpty = true
      · simp only [splitExponent, if_pos isMark, if_pos none]
      · have isDigits : Digits ((splitSign behind).2.takeWhile Char.isDigit) :=
          fun c member => List.mem_takeWhile_imp member
        have nonempty : (splitSign behind).2.takeWhile Char.isDigit ≠ [] :=
          fun empty => none (List.isEmpty_iff.mpr empty)
        have alone :=
          splitExponent_mark isMark (splitSign_isSign behind) isDigits nonempty [] nofun
        have read : splitExponent (mark :: behind) =
            (mark :: ((splitSign behind).1 ++ (splitSign behind).2.takeWhile Char.isDigit),
              signedDigits (splitSign behind).1 ((splitSign behind).2.takeWhile Char.isDigit),
              (splitSign behind).2.dropWhile Char.isDigit) := by
          rw [splitExponent]
          simp only [if_pos isMark, if_neg none]
        rw [List.append_nil] at alone
        rw [read, alone]
    · simp only [splitExponent, if_neg isMark]

theorem splitFraction_before {fraction later : List Char} (form : FractionForm fraction)
    (stops : ∀ c ∈ later.head?, c.isDigit = false ∧ c ≠ '.') :
    splitFraction (fraction ++ later) = (fraction, later) := by
  rcases form with rfl | ⟨places, isDigits, rfl⟩
  · rw [List.nil_append]
    unfold splitFraction
    split
    · exact absurd rfl (stops '.' rfl).2
    · rfl
  · have run := takeWhile_run isDigits _ fun c isHead => (stops c isHead).1
    simp only [List.cons_append, splitFraction, run]

theorem split_form {whole fraction exponent : List Char}
    (form : NumberForm whole fraction exponent) (rest : List Char) (ends : EndsNumber rest) :
    split (whole ++ (fraction ++ exponent) ++ rest) =
      ⟨whole ++ (fraction ++ exponent), rest,
        some ⟨ofDigits (whole ++ fraction.drop 1),
          (splitExponent exponent).2.1 - (fraction.drop 1).length⟩⟩ := by
  have behindFraction : ∀ c ∈ (exponent ++ rest).head?, c.isDigit = false ∧ c ≠ '.' := by
    intro c isHead
    cases exponentEq : exponent with
    | nil =>
      rw [exponentEq] at isHead
      exact ⟨(ends c isHead).1, (ends c isHead).2.1⟩
    | cons mark later =>
      rw [exponentEq] at isHead
      have isMark := head?_exponent form.exponentForm c (exponentEq ▸ isHead)
      refine ⟨isDigit_mark isMark, ?_⟩
      rcases isMark with rfl | rfl <;> decide
  have behindWhole : ∀ c ∈ (fraction ++ (exponent ++ rest)).head?, c.isDigit = false := by
    rcases form.fractionForm with rfl | ⟨places, -, rfl⟩
    · intro c isHead
      exact (behindFraction c isHead).1
    · intro c isHead
      cases isHead
      rfl
  have wholeRead := takeWhile_run form.wholeDigits _ behindWhole
  have fractionRead := splitFraction_before form.fractionForm behindFraction
  have exponentRead := splitExponent_before form.exponentForm ends
  have digit : (whole ++ fraction.drop 1).isEmpty = false :=
    List.isEmpty_eq_false_iff.mpr form.digit
  rw [List.append_assoc, List.append_assoc]
  simp only [split, wholeRead, fractionRead, exponentRead, digit, Bool.false_eq_true, if_false]

theorem split_append_of_mem {word rest : List Char} (isNumber : word ∈ numberForms)
    (ends : EndsNumber rest) :
    split (word ++ rest) = ⟨word, rest, (split word).value?⟩ := by
  rcases mem_numberForms.mp isNumber with ⟨whole, fraction, exponent, rfl, form⟩
  have alone := split_form form [] nofun
  rw [List.append_nil] at alone
  rw [alone]
  exact split_form form rest ends

/-- What is read reads to the same number by itself, also where a mark without digits stands behind
it. -/
theorem split_spelled_value? {text : List Char} (found : (split text).value?.isSome = true) :
    (split (split text).spelled).value? = (split text).value? := by
  have form := split_numberForm found
  have alone := split_form form [] nofun
  rw [List.append_nil, splitExponent_spelled] at alone
  have spelledEq : (split text).spelled = text.takeWhile Char.isDigit ++
      ((splitFraction (text.dropWhile Char.isDigit)).1 ++
        (splitExponent (splitFraction (text.dropWhile Char.isDigit)).2).1) := rfl
  have nonempty : ¬(text.takeWhile Char.isDigit ++
      (splitFraction (text.dropWhile Char.isDigit)).1.drop 1).isEmpty = true :=
    fun empty => form.digit (List.isEmpty_iff.mp empty)
  rw [spelledEq, alone]
  simp only [split, if_neg nonempty]

end Decimal

end Tangency
