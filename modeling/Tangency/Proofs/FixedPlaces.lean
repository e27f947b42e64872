/-
Numbers with a fixed number of places.

A decimal stands for an element of a field, and its text is read as a decimal of the same amount,
also in front of more text as long as that does not go on with the number.  A text with so many
places is rounded when its amount is off by at most half a unit of the last place, and when it has a
minus only for a number below zero.  The texts of coefficients of doubles are rounded to four
places, and the text of an anchor has the fewest digits.
-/

import Tangency.Jet.Formula
import Tangency.Proofs.DoubleOrder
import Tangency.Proofs.LiteralText

namespace Tangency

universe u

namespace Decimal

def amount (K : Type u) [Field K] (value : Decimal) : K :=
  value.digits * ((10 : ℕ) : K) ^ value.exponent

def read? (text : List Char) : Option (Decimal × List Char) :=
  (split text).value?.map fun value => (value, (split text).rest)

theorem amount_scaled {K : Type u} [Field K] (digits : ℕ) {exponent : ℤ} (whole : 0 ≤ exponent) :
    (⟨digits * tenTo exponent.toNat, 0⟩ : Decimal).amount K =
      (⟨digits, exponent⟩ : Decimal).amount K := by
  have power : ((tenTo exponent.toNat : ℕ) : K) = ((10 : ℕ) : K) ^ exponent := by
    rw [tenTo, Nat.pow_eq, Nat.cast_pow, ← zpow_natCast, Int.toNat_of_nonneg whole]
  rw [amount, amount, zpow_zero, mul_one, Nat.cast_mul, power]

theorem read?_positional (K : Type u) [Field K] (value : Decimal) :
    ∃ read : Decimal, read.amount K = value.amount K ∧ ∀ {rest : List Char}, EndsNumber rest →
      read? (value.positional ++ rest) = some (read, rest) := by
  have found : ∃ read : Decimal, read.amount K = value.amount K ∧
      (split value.positional).value? = some read := by
    rcases value.positional_reads.2 with same | ⟨whole, scaled⟩
    · exact ⟨value, rfl, same⟩
    · exact ⟨_, amount_scaled value.digits whole, scaled⟩
  obtain ⟨read, amountEq, isRead⟩ := found
  refine ⟨read, amountEq, fun ends => ?_⟩
  rw [read?, split_append_of_mem value.positional_reads.1 ends, isRead]
  rfl

end Decimal

structure SignedDecimal where
  negative : Bool
  size : Decimal
  deriving DecidableEq

namespace SignedDecimal

def written (number : SignedDecimal) : List Char :=
  if number.negative then '-' :: number.size.positional else number.size.positional

def amount (K : Type u) [Field K] (number : SignedDecimal) : K :=
  if number.negative then -number.size.amount K else number.size.amount K

/-- A number form at the front of a text, with or without a minus, and the text behind it. -/
def read? : List Char → Option (SignedDecimal × List Char)
  | '-' :: unsigned => (Decimal.read? unsigned).map fun found => (⟨true, found.1⟩, found.2)
  | unsigned => (Decimal.read? unsigned).map fun found => (⟨false, found.1⟩, found.2)

theorem read?_unsigned {c : Char} (later : List Char) (notMinus : c ≠ '-') :
    read? (c :: later) =
      (Decimal.read? (c :: later)).map fun found => (⟨false, found.1⟩, found.2) := by
  rw [read?]
  exact fun _ same => notMinus (List.cons.inj same).1

theorem read?_written (K : Type u) [Field K] (number : SignedDecimal) :
    ∃ read : SignedDecimal, read.amount K = number.amount K ∧ ∀ {rest : List Char},
      Decimal.EndsNumber rest → read? (number.written ++ rest) = some (read, rest) := by
  obtain ⟨size, amountEq, isRead⟩ := number.size.read?_positional K
  refine ⟨⟨number.negative, size⟩, by rw [amount, amount, amountEq], fun {rest} ends => ?_⟩
  have sizeRead := isRead ends
  rcases number with ⟨_ | _, value⟩
  · obtain ⟨c, later, startsWith, starts⟩ := startsNumber value.positional_reads.1
    have notMinus : c ≠ '-' := by
      rintro rfl
      exact absurd starts (by decide)
    rw [startsWith, List.cons_append] at sizeRead
    rw [written, if_neg Bool.false_ne_true, startsWith, List.cons_append,
      read?_unsigned _ notMinus, sizeRead]
    rfl
  · rw [written, if_pos rfl, List.cons_append, read?, sizeRead]
    rfl

/-! ### Rounding -/

section Rounds

variable {K : Type u} [Field K] [LinearOrder K]

/-- A decimal with so many places, at most half a unit of the last one off, and with a minus only
for a number below zero. -/
structure Rounds (number : SignedDecimal) (places : ℕ) (a : K) : Prop where
  exponent_eq : number.size.exponent = -places
  neg_of_negative : number.negative = true → a < 0
  close : |number.amount K - a| ≤ 1 / 2 / 10 ^ places

variable {a : K} {places : ℕ}

section OfUnits

variable [IsStrictOrderedRing K]

/-- So many units of the last place, with a minus for a number below zero, are as far off as their
number is, in units. -/
theorem abs_amount_sub (a : K) (whole places : ℕ) :
    |(⟨decide (a < 0), ⟨whole, -places⟩⟩ : SignedDecimal).amount K - a| =
      |(|a| * 10 ^ places - whole)| / 10 ^ places := by
  have unitPos : (0 : K) < 10 ^ places := by positivity
  have sizeEq : (⟨whole, -places⟩ : Decimal).amount K = whole / 10 ^ places := by
    rw [Decimal.amount, zpow_neg, zpow_natCast, ← div_eq_mul_inv, Nat.cast_ofNat]
  have scaled : |a| * 10 ^ places - whole = (|a| - whole / 10 ^ places) * 10 ^ places := by
    rw [sub_mul, div_mul_cancel₀ _ unitPos.ne']
  rw [scaled, abs_mul, abs_of_pos unitPos, mul_div_cancel_right₀ _ unitPos.ne', amount, sizeEq]
  by_cases below : a < 0
  · rw [if_pos (decide_eq_true below), abs_of_neg below, neg_sub_comm]
  · rw [if_neg (by simpa using below), abs_of_nonneg (not_lt.mp below), abs_sub_comm]

theorem rounds_of_nearest {whole : ℕ} (nearest : |(|a| * 10 ^ places - whole)| ≤ 1 / 2) :
    Rounds ⟨decide (a < 0), ⟨whole, -places⟩⟩ places a where
  exponent_eq := rfl
  neg_of_negative := of_decide_eq_true
  close := by
    rw [abs_amount_sub]
    gcongr

theorem amount_of_units {whole : ℕ} (full : |a| * 10 ^ places = whole) :
    (⟨decide (a < 0), ⟨whole, -places⟩⟩ : SignedDecimal).amount K = a := by
  rw [← sub_eq_zero, ← abs_eq_zero, abs_amount_sub, full, sub_self, abs_zero, zero_div]

end OfUnits

theorem Rounds.written_of_nonneg {number : SignedDecimal} (rounds : number.Rounds places a)
    (nonneg : 0 ≤ a) :
    number.written = number.size.positional ∧ |number.size.amount K - a| ≤ 1 / 2 / 10 ^ places := by
  have unsigned : ¬number.negative = true := fun negative =>
    (rounds.neg_of_negative negative).not_ge nonneg
  have close := rounds.close
  rw [amount, if_neg unsigned] at close
  exact ⟨if_neg unsigned, close⟩

end Rounds

end SignedDecimal

def IsRounded {K : Type u} [Field K] [LinearOrder K] (places : ℕ) (text : List Char) (a : K) :
    Prop :=
  ∃ number : SignedDecimal, text = number.written ∧ number.Rounds places a

def IsExact {K : Type u} [Field K] (text : List Char) (a : K) : Prop :=
  ∃ number : SignedDecimal, text = number.written ∧ number.amount K = a

class RoundsPlaces (K : Type u) [Field K] [LinearOrder K] [Numeral (Exact K)] : Prop where
  isRounded_textAtPlaces (places : ℕ) (a : K) :
    IsRounded places (Numeral.textAtPlaces places (Exact.known a)) a

namespace Binary64

theorem abs_rational_eq (x : Binary64) :
    |x.rational| = (magnitudeNumerator x : ℚ) / magnitudeDenominator x := by
  rw [abs_rational, magnitude_eq]

theorem magnitudeDenominator_pos (x : Binary64) : 0 < magnitudeDenominator x := twoTo_pos _

theorem IsZero.rational_eq {x : Binary64} (isZero : x.IsZero) : x.rational = 0 := by
  rcases isZero with rfl | rfl
  · exact rational_zero
  · have opposite : negativeZero = -zero := by decide
    rw [opposite, rational_neg, rational_zero, neg_zero]

theorem isNegative_eq {x : Binary64} (unsigned : x ≠ negativeZero) :
    x.isNegative = decide (x.rational < 0) := by
  have denominatorPos : (0 : ℚ) < magnitudeDenominator x :=
    Nat.cast_pos.mpr x.magnitudeDenominator_pos
  rw [rational]
  cases negative : x.isNegative with
  | false =>
    have nonneg : (0 : ℚ) ≤ magnitudeNumerator x / magnitudeDenominator x := by positivity
    exact (decide_eq_false nonneg.not_gt).symm
  | true =>
    have numeratorNe : magnitudeNumerator x ≠ 0 := by
      intro nothing
      rcases isZero_of_magnitudeBits (magnitudeBits_of_numerator_eq_zero nothing) with rfl | rfl
      · exact absurd negative (by decide)
      · exact unsigned rfl
    have numeratorPos : (0 : ℚ) < magnitudeNumerator x :=
      Nat.cast_pos.mpr (Nat.pos_of_ne_zero numeratorNe)
    have below := neg_neg_of_pos (div_pos numeratorPos denominatorPos)
    exact (decide_eq_true below).symm

theorem isRounded_textAtPlaces (places : ℕ) {x : Binary64} (finite : x.isFinite = true)
    (unsigned : x ≠ negativeZero) : IsRounded places (textAtPlaces places x) x.rational := by
  have nearest := (isNearest_nearestEven (magnitudeNumerator x * tenTo places)
    x.magnitudeDenominator_pos).close
  have scaled : ((magnitudeNumerator x * tenTo places : ℕ) : ℚ) / magnitudeDenominator x =
      |x.rational| * 10 ^ places := by
    rw [abs_rational_eq, Nat.cast_mul, tenTo, Nat.pow_eq, Nat.cast_pow, Nat.cast_ofNat,
      mul_div_right_comm]
  rw [scaled] at nearest
  refine ⟨_, ?_, SignedDecimal.rounds_of_nearest nearest⟩
  rw [textAtPlaces, textWith_eq _ finite, isNegative_eq unsigned]
  rfl

theorem withoutSignedZero_spec {x : Binary64} (finite : x.isFinite = true) :
    withoutSignedZero x ≠ negativeZero ∧ (withoutSignedZero x).isFinite = true ∧
      (withoutSignedZero x).rational = x.rational := by
  unfold withoutSignedZero
  by_cases nothing : Scalar.isEqual x Scalar.zero = true
  · have isZero : x.IsZero := x.isEqual_zero_iff.mp (scalar_zero_eq ▸ nothing)
    rw [if_pos nothing, isZero.rational_eq, scalar_zero_eq, rational_zero]
    exact ⟨by decide, by decide, rfl⟩
  · rw [if_neg nothing]
    refine ⟨?_, finite, rfl⟩
    rintro rfl
    exact nothing (by decide)

theorem isRounded_coefficientText {x : Binary64} (finite : x.isFinite = true) :
    IsRounded 4 (coefficientText x).toList x.rational := by
  obtain ⟨unsigned, stillFinite, same⟩ := withoutSignedZero_spec finite
  rw [coefficientText, String.toList_ofList, ← same]
  exact isRounded_textAtPlaces 4 stillFinite unsigned

def shortestAnchor (x : Binary64) : SignedDecimal :=
  ⟨(withoutSignedZero x).isNegative, (withoutSignedZero x).shortestDecimal⟩

theorem isExact_anchorText {x : Binary64} (finite : x.isFinite = true) :
    IsExact (anchorText x).toList (x.shortestAnchor.amount ℚ) := by
  refine ⟨x.shortestAnchor, ?_, rfl⟩
  rw [anchorText, String.toList_ofList]
  exact text_eq (withoutSignedZero_spec finite).2.1

end Binary64

end Tangency
