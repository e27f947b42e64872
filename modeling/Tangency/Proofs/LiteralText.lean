/-
The text of a finite double is a plain number form that reads back to the double.

A decimal is written positionally, and the digits are read to the same number, with the
zeros in front and behind.  The shortest decimal of a double was tried against its bits
when it was chosen, and the exact decimal that stands behind the tried ones is rounded to
the double it is the value of.
-/

import Tangency.Numeral
import Tangency.Proofs.NearestDoubles
import Tangency.Proofs.PrintedPhrases

namespace Tangency

namespace Decimal

theorem ofDigits_append_singleton (digits : List Char) (digit : Char) :
    ofDigits (digits ++ [digit]) = 10 * ofDigits digits + (digit.toNat - '0'.toNat) := by
  rw [ofDigits, List.foldl_append]
  rfl

theorem ofDigits_toDigits (n : Nat) : ofDigits (Nat.toDigits 10 n) = n := by
  induction n using Nat.strongRecOn with
  | ind n ih =>
    by_cases small : n < 10
    · rw [Nat.toDigits_of_lt_base small]
      have digit := Nat.toNat_digitChar_sub_48_of_lt_ten small
      change 10 * 0 + (n.digitChar.toNat - 48) = n
      omega
    · have front := ih (n / 10) (by omega)
      have digit := Nat.toNat_digitChar_sub_48_of_lt_ten (Nat.mod_lt n (by decide : 10 > 0))
      rw [Nat.toDigits_of_base_le (by decide) (Nat.le_of_not_lt small), ofDigits_append_singleton,
        front]
      change 10 * (n / 10) + ((n % 10).digitChar.toNat - 48) = n
      omega

theorem ofDigits_append_zeros (digits : List Char) (count : Nat) :
    ofDigits (digits ++ List.replicate count '0') = ofDigits digits * tenTo count := by
  induction count with
  | zero => rw [List.replicate_zero, List.append_nil, tenTo, Nat.pow_eq, Nat.pow_zero, Nat.mul_one]
  | succ count ih =>
    have zero : '0'.toNat - '0'.toNat = 0 := rfl
    rw [List.replicate_succ', ← List.append_assoc, ofDigits_append_singleton, ih, tenTo_succ, zero,
      Nat.add_zero, Nat.mul_comm 10, Nat.mul_assoc]

theorem ofDigits_zeros_append (count : Nat) (digits : List Char) :
    ofDigits (List.replicate count '0' ++ digits) = ofDigits digits := by
  induction count with
  | zero => rfl
  | succ count ih =>
    rw [List.replicate_succ, List.cons_append]
    exact ih

theorem toDigits_mul_tenTo {n : Nat} (positive : 0 < n) (count : Nat) :
    Nat.toDigits 10 (n * tenTo count) = Nat.toDigits 10 n ++ List.replicate count '0' := by
  induction count with
  | zero => rw [List.replicate_zero, List.append_nil, tenTo, Nat.pow_eq, Nat.pow_zero, Nat.mul_one]
  | succ count ih =>
    have step := Nat.toDigits_append_toDigits (by decide : 1 < 10)
      (Nat.mul_pos positive (tenTo_pos count)) (by decide : 0 < 10)
    rw [List.replicate_succ', ← List.append_assoc, ← ih, tenTo_succ, ← Nat.mul_assoc]
    rw [Nat.toDigits_zero, Nat.add_zero, Nat.mul_comm 10] at step
    exact step.symm

theorem digits_toDigits (n : Nat) : Digits (Nat.toDigits 10 n) := fun _ member =>
  Nat.isDigit_of_mem_toDigits (by decide) (by decide) member

theorem digits_zeros (count : Nat) : Digits (List.replicate count '0') := by
  intro c member
  rw [List.eq_of_mem_replicate member]
  rfl

theorem split_plain {whole fraction : List Char} (digits : Digits whole)
    (fractionForm : FractionForm fraction) (digit : whole ++ fraction.drop 1 ≠ []) :
    whole ++ fraction ∈ numberForms ∧ (split (whole ++ fraction)).value? =
      some ⟨ofDigits (whole ++ fraction.drop 1), -(fraction.drop 1).length⟩ := by
  have form : NumberForm whole fraction [] := ⟨digits, fractionForm, .inl rfl, digit⟩
  have read := split_form form [] nofun
  simp only [List.append_nil] at read
  constructor
  · exact mem_numberForms.mpr ⟨whole, fraction, [], by rw [List.append_nil], form⟩
  · rw [read]
    simp only [splitExponent, Int.zero_sub]

/-- Positional text is a number form. It reads to the number itself, or with the zeros of a positive
exponent among the digits. -/
theorem positional_reads (value : Decimal) :
    value.positional ∈ numberForms ∧
      ((split value.positional).value? = some value ∨
        0 ≤ value.exponent ∧ (split value.positional).value? =
          some ⟨value.digits * tenTo value.exponent.toNat, 0⟩) := by
  have written := digits_toDigits value.digits
  have nonempty : Nat.toDigits 10 value.digits ≠ [] := Nat.toDigits_ne_nil
  unfold positional
  by_cases noPlaces : (-value.exponent).toNat = 0
  · simp only [if_pos noPlaces]
    have read := split_plain (written.append (digits_zeros value.exponent.toNat)) (.inl rfl)
      (by rw [List.drop_nil, List.append_nil]; exact List.append_ne_nil_of_left_ne_nil nonempty _)
    simp only [List.append_nil, List.drop_nil, ofDigits_append_zeros, ofDigits_toDigits] at read
    exact ⟨read.1, .inr ⟨by omega, read.2⟩⟩
  · simp only [if_neg noPlaces]
    have negative : -((-value.exponent).toNat : Int) = value.exponent := by omega
    by_cases inside : (-value.exponent).toNat < (Nat.toDigits 10 value.digits).length
    · simp only [if_pos inside]
      have front : Digits ((Nat.toDigits 10 value.digits).take
          ((Nat.toDigits 10 value.digits).length - (-value.exponent).toNat)) :=
        fun c member => written c (List.mem_of_mem_take member)
      have behind : Digits ((Nat.toDigits 10 value.digits).drop
          ((Nat.toDigits 10 value.digits).length - (-value.exponent).toNat)) :=
        fun c member => written c (List.mem_of_mem_drop member)
      have read := split_plain front (.inr ⟨_, behind, rfl⟩)
        (by rw [List.drop_succ_cons, List.drop_zero, List.take_append_drop]; exact nonempty)
      have places : (Nat.toDigits 10 value.digits).length -
          ((Nat.toDigits 10 value.digits).length - (-value.exponent).toNat) =
            (-value.exponent).toNat := by omega
      simp only [List.drop_succ_cons, List.drop_zero, List.take_append_drop, ofDigits_toDigits,
        List.length_drop, places, negative] at read
      exact ⟨read.1, .inl read.2⟩
    · simp only [if_neg inside]
      have behind := (digits_zeros
        ((-value.exponent).toNat - (Nat.toDigits 10 value.digits).length)).append written
      have read := split_plain (digits_zeros 1) (.inr ⟨_, behind, rfl⟩) (List.cons_ne_nil _ _)
      have places : (-value.exponent).toNat - (Nat.toDigits 10 value.digits).length +
          (Nat.toDigits 10 value.digits).length = (-value.exponent).toNat := by omega
      simp only [List.drop_succ_cons, List.drop_zero, ofDigits_zeros_append, ofDigits_toDigits,
        List.length_append, List.length_replicate, places, negative] at read
      exact ⟨read.1, .inl read.2⟩

theorem nearestMagnitudeBits_zeros (digits : Nat) {exponent : Int} (whole : 0 ≤ exponent) :
    nearestMagnitudeBits ⟨digits * tenTo exponent.toNat, 0⟩ =
      nearestMagnitudeBits ⟨digits, exponent⟩ := by
  by_cases zero : digits = 0
  · subst zero
    simp only [nearestMagnitudeBits, Nat.zero_mul, true_or, if_true]
  · have positive : 0 < digits := Nat.pos_of_ne_zero zero
    have scaledNe : digits * tenTo exponent.toNat ≠ 0 :=
      Nat.ne_of_gt (Nat.mul_pos positive (tenTo_pos _))
    have order : (0 : Int) + ((Nat.toDigits 10 digits).length + exponent.toNat : Nat) =
        exponent + (Nat.toDigits 10 digits).length := by
      push_cast
      omega
    have noPlaces : (-exponent).toNat = 0 := by omega
    simp only [nearestMagnitudeBits, zero, scaledNe, false_or, toDigits_mul_tenTo positive,
      List.length_append, List.length_replicate, order, noPlaces, Int.neg_zero, Int.toNat_zero]
    rw [show tenTo 0 = 1 from rfl, Nat.mul_one]

theorem positional_reads_back (value : Decimal) :
    value.positional ∈ numberForms ∧ ∃ read, (split value.positional).value? = some read ∧
      read.nearestMagnitudeBits = value.nearestMagnitudeBits := by
  rcases positional_reads value with ⟨isNumber, same | ⟨whole, scaled⟩⟩
  · exact ⟨isNumber, value, same, rfl⟩
  · exact ⟨isNumber, _, scaled, nearestMagnitudeBits_zeros value.digits whole⟩

end Decimal

/-! ### The decimal of a double -/

namespace Binary64

theorem neighbourReadingBack_reads {bits numerator denominator : Nat} {exponent : Int}
    {found : Decimal}
    (isFound : neighbourReadingBack bits numerator denominator exponent = some found) :
    found.nearestMagnitudeBits = bits := by
  unfold neighbourReadingBack at isFound
  simp only at isFound
  split at isFound
  · rename_i below above
    split at isFound <;> cases isFound
    · exact eq_of_beq below
    · exact eq_of_beq above
  · rename_i below above
    cases isFound
    exact eq_of_beq below
  · rename_i below above
    cases isFound
    exact eq_of_beq above
  · cases isFound

theorem twoTo_mono {small large : Nat} (le : small ≤ large) : twoTo small ≤ twoTo large :=
  Nat.pow_le_pow_right (by decide) le

theorem tenTo_mono {small large : Nat} (le : small ≤ large) : tenTo small ≤ tenTo large :=
  Nat.pow_le_pow_right (by decide) le

theorem twoTo_mul (first second : Nat) : twoTo (first * second) = (2 ^ first) ^ second :=
  Nat.pow_mul 2 first second

theorem tenTo_mul (first second : Nat) : tenTo (first * second) = (10 ^ first) ^ second :=
  Nat.pow_mul 10 first second

theorem tenTo_add (first second : Nat) : tenTo (first + second) = tenTo first * tenTo second :=
  Nat.pow_add 10 first second

theorem tenTo_eq_mul (exponent : Nat) : tenTo exponent = fiveTo exponent * twoTo exponent :=
  Nat.mul_pow 5 2 exponent

/-- The greatest doubles are below the order that is not rounded any more. -/
theorem twoTo_lt_tenTo {exponent : Nat} (bounded : exponent ≤ 93 * 11 + 1) :
    twoTo exponent < tenTo 309 := by
  have grow := twoTo_mono bounded
  have split : twoTo (93 * 11 + 1) = (2 ^ 93) ^ 11 * 2 := by rw [twoTo_succ, twoTo_mul]
  have shrink : (2 ^ 93) ^ 11 ≤ (10 ^ 28) ^ 11 := Nat.pow_le_pow_left (by decide) 11
  have joined : tenTo 309 = (10 ^ 28) ^ 11 * 10 := by
    rw [show 309 = 28 * 11 + 1 from rfl, tenTo_succ, tenTo_mul]
  have positive : 0 < (10 ^ 28) ^ 11 := Nat.pow_pos (by decide)
  omega

theorem twoTo_le_tenTo {exponent : Nat} (bounded : exponent ≤ 179 * 6) :
    twoTo exponent ≤ tenTo 324 := by
  have grow := twoTo_mono bounded
  have split : twoTo (179 * 6) = (2 ^ 179) ^ 6 := twoTo_mul 179 6
  have joined : tenTo 324 = (10 ^ 54) ^ 6 := tenTo_mul 54 6
  have shrink : (2 ^ 179) ^ 6 ≤ (10 ^ 54) ^ 6 := Nat.pow_le_pow_left (by decide) 6
  omega

theorem magnitudeNumerator_lt {x : Binary64} (finite : x.isFinite = true) :
    magnitudeNumerator x < tenTo 309 := by
  have field := exponentField_lt finite
  have scale : 53 + (power x).toNat ≤ 93 * 11 + 1 := by
    rw [power]
    omega
  calc magnitudeNumerator x < twoTo 53 * twoTo (power x).toNat :=
        Nat.mul_lt_mul_of_pos_right (significand_lt x) (twoTo_pos _)
    _ = twoTo (53 + (power x).toNat) := (Nat.pow_add 2 53 _).symm
    _ < tenTo 309 := twoTo_lt_tenTo scale

theorem exactDecimal_order {x : Binary64} (finite : x.isFinite = true)
    (positive : 0 < magnitudeNumerator x) :
    ¬(exactDecimal x).exponent + (Nat.toDigits 10 (exactDecimal x).digits).length ≤ -324 ∧
      ¬309 < (exactDecimal x).exponent + (Nat.toDigits 10 (exactDecimal x).digits).length := by
  have scaleLe : (-power x).toNat ≤ 179 * 6 := by
    rw [power]
    omega
  have digitsPos : 0 < magnitudeNumerator x * fiveTo (-power x).toNat :=
    Nat.mul_pos positive (fiveTo_pos _)
  have bound : ∀ {count : Nat}, 0 < count →
      ((Nat.toDigits 10 (magnitudeNumerator x * fiveTo (-power x).toNat)).length ≤ count ↔
        magnitudeNumerator x * fiveTo (-power x).toNat < tenTo count) :=
    fun counted => Nat.length_toDigits_le_iff (by decide) counted
  have lengthPos : 0 < (Nat.toDigits 10 (magnitudeNumerator x * fiveTo (-power x).toNat)).length :=
    Nat.length_toDigits_pos
  simp only [exactDecimal]
  constructor
  · intro small
    have below := (bound lengthPos).mp (Nat.le_refl _)
    have room : (Nat.toDigits 10 (magnitudeNumerator x * fiveTo (-power x).toNat)).length + 324 ≤
        (-power x).toNat := by omega
    have scaled := Nat.mul_lt_mul_of_pos_right below (tenTo_pos 324)
    rw [← tenTo_add] at scaled
    have tooSmall : magnitudeNumerator x * fiveTo (-power x).toNat * tenTo 324 <
        fiveTo (-power x).toNat * tenTo 324 :=
      calc magnitudeNumerator x * fiveTo (-power x).toNat * tenTo 324
          < tenTo (-power x).toNat := scaled.trans_le (tenTo_mono room)
        _ = fiveTo (-power x).toNat * twoTo (-power x).toNat := tenTo_eq_mul _
        _ ≤ fiveTo (-power x).toNat * tenTo 324 := Nat.mul_le_mul_left _ (twoTo_le_tenTo scaleLe)
    have grown : fiveTo (-power x).toNat * tenTo 324 ≤
        magnitudeNumerator x * fiveTo (-power x).toNat * tenTo 324 :=
      Nat.mul_le_mul_right _ (Nat.le_mul_of_pos_left _ positive)
    omega
  · intro large
    have above : ¬(Nat.toDigits 10 (magnitudeNumerator x * fiveTo (-power x).toNat)).length ≤
        309 + (-power x).toNat := by omega
    have enough : 0 < 309 + (-power x).toNat := by omega
    rw [bound enough, tenTo_add, tenTo_eq_mul (-power x).toNat] at above
    have small := Nat.mul_lt_mul_of_pos_right (magnitudeNumerator_lt finite)
      (fiveTo_pos (-power x).toNat)
    have grown : tenTo 309 * fiveTo (-power x).toNat ≤
        tenTo 309 * (fiveTo (-power x).toNat * twoTo (-power x).toNat) :=
      Nat.mul_le_mul_left _ (Nat.le_mul_of_pos_right _ (twoTo_pos _))
    omega

theorem exactDecimal_reads {x : Binary64} (finite : x.isFinite = true)
    (positive : 0 < magnitudeNumerator x) :
    (exactDecimal x).nearestMagnitudeBits = magnitudeBits x := by
  have digitsPos : 0 < magnitudeNumerator x * fiveTo (-power x).toNat :=
    Nat.mul_pos positive (fiveTo_pos _)
  have order := exactDecimal_order finite positive
  have notTiny : ¬((exactDecimal x).digits = 0 ∨ (exactDecimal x).exponent +
      (Nat.toDigits 10 (exactDecimal x).digits).length ≤ -324) := by
    rintro (zero | tiny)
    · exact Nat.ne_of_gt digitsPos zero
    · exact order.1 tiny
  rw [Decimal.nearestMagnitudeBits]
  simp only [if_neg notTiny, if_neg order.2]
  have numeratorScale : tenTo (exactDecimal x).exponent.toNat = 1 := by
    have none : (exactDecimal x).exponent.toNat = 0 := by
      simp only [exactDecimal]
      omega
    rw [none]
    rfl
  have denominatorScale : (-(exactDecimal x).exponent).toNat = (-power x).toNat := by
    simp only [exactDecimal]
    omega
  rw [numeratorScale, denominatorScale, Nat.mul_one]
  refine nearestMagnitudeBits_of_eq finite (tenTo_pos _) ?_
  have fiveNe : ((fiveTo (-power x).toNat : Nat) : ℚ) ≠ 0 :=
    Nat.cast_ne_zero.mpr (Nat.ne_of_gt (fiveTo_pos _))
  have digitsEq : (exactDecimal x).digits = magnitudeNumerator x * fiveTo (-power x).toNat := rfl
  rw [← magnitude_eq, digitsEq, tenTo_eq_mul, magnitudeDenominator, Nat.mul_comm (fiveTo _),
    Nat.cast_mul, Nat.cast_mul, mul_div_mul_right _ _ fiveNe]

theorem magnitudeBits_of_numerator_eq_zero {x : Binary64} (zero : magnitudeNumerator x = 0) :
    magnitudeBits x = 0 := by
  have noSignificand : significand x = 0 :=
    (Nat.mul_eq_zero.mp zero).resolve_right (Nat.ne_of_gt (twoTo_pos _))
  have hidden := twoTo_pos 52
  rw [significand] at noSignificand
  split at noSignificand
  · rename_i subnormal
    rw [magnitudeBits_eq, subnormal, noSignificand, Nat.zero_mul]
  · omega

theorem shortestDecimal_reads {x : Binary64} (finite : x.isFinite = true) :
    (shortestDecimal x).nearestMagnitudeBits = magnitudeBits x := by
  unfold shortestDecimal
  by_cases zero : magnitudeNumerator x = 0
  · simp only [if_pos zero]
    exact (magnitudeBits_of_numerator_eq_zero zero).symm
  · simp only [if_neg zero]
    rw [Option.getD.eq_def]
    split
    · rename_i tried
      rcases List.exists_of_findSome?_eq_some tried with ⟨lower, -, found⟩
      exact neighbourReadingBack_reads found
    · exact exactDecimal_reads finite (Nat.pos_of_ne_zero zero)

theorem textWith_eq (digitsOf : Binary64 → Decimal) {x : Binary64} (finite : x.isFinite = true) :
    textWith digitsOf x = if isNegative x then '-' :: (digitsOf x).positional
      else (digitsOf x).positional := by
  have field : exponentField x ≠ 2047 := Nat.ne_of_lt (exponentField_lt finite)
  have kind : category x = .zero ∨ category x = .subnormal ∨ category x = .normal := by
    rw [category, if_neg field]
    by_cases small : exponentField x = 0
    · rw [if_pos small]
      by_cases none : fraction x = 0
      · exact .inl (if_pos none)
      · exact .inr (.inl (if_neg none))
    · exact .inr (.inr (if_neg small))
  rcases kind with isKind | isKind | isKind
  · rw [textWith, isKind]
  · rw [textWith, isKind]
  · rw [textWith, isKind]

theorem text_eq {x : Binary64} (finite : x.isFinite = true) :
    text x = if isNegative x then '-' :: (shortestDecimal x).positional
      else (shortestDecimal x).positional :=
  textWith_eq shortestDecimal finite

theorem legible {x : Binary64} (finite : x.isFinite = true) : Legible x := by
  rcases (shortestDecimal x).positional_reads_back with ⟨isNumber, read, reads, sameBits⟩
  refine ⟨_, read, isNumber, reads, ?_, text_eq finite⟩
  rw [shortestDecimal_reads finite] at sameBits
  have valueEq : Numeral.ofDecimal read = ofMagnitudeBits false (magnitudeBits x) :=
    congrArg (ofMagnitudeBits false) sameBits
  have self := ofMagnitudeBits_eq_self x
  rw [valueEq]
  by_cases negative : Numeral.isNegative x = true
  · have isNegative : x.isNegative = true := negative
    rw [if_pos negative]
    change _ = ofMagnitudeBits (!x.isNegative) x.magnitudeBits
    rw [isNegative]
    rfl
  · have notNegative : x.isNegative = false := eq_false_of_ne_true negative
    rw [if_neg negative]
    rw [notNegative] at self
    exact self

end Binary64

end Tangency
