/-
The arithmetic of doubles as exact arithmetic with one rounding.

Sums, differences, products and quotients of finite doubles are the doubles nearest to the sums,
differences, products and quotients of their values.  An operand that is not finite leaves no finite
result, except below a division bar.
-/

import Tangency.Proofs.FloatRounding

namespace Tangency.Binary64

open Float.Model (UnpackedFloat Format totalExponent)
open Float.Model.UnpackedFloat

def signOf (x : Binary64) : Sign := if x.isNegative then .negative else .positive

theorem unpacked_eq_unpack {x : Binary64} (number : x.isNaN = false) :
    x.unpacked = unpack .binary64 x.pattern := by
  have packed : pack .binary64 (unpack .binary64 x.pattern) = x.pattern := by
    rw [pack_unpack, isNaNBits_pattern, number, if_neg Bool.false_ne_true]
  change unpack .binary64 (pack .binary64 (unpack .binary64 x.pattern)) = _
  rw [packed]

theorem ofBitVec_unpackSign (x : Binary64) : Sign.ofBitVec (unpackSign x.pattern) = x.signOf := by
  have whole : x = ⟨⟨packComponents .binary64 (Sign.ofBitVec (unpackSign x.pattern))
      (unpackExponent x.pattern) (unpackMantissa x.pattern)⟩⟩ :=
    eq_of_pattern (packComponents_unpackSign_unpackExponent_unpackMantissa x.pattern).symm
  have negative : x.isNegative = (Sign.ofBitVec (unpackSign x.pattern) == .negative) := by
    nth_rewrite 1 [whole]
    exact isNegative_packComponents _ _ _
  rw [signOf, negative]
  cases Sign.ofBitVec (unpackSign x.pattern) <;> rfl

theorem unpacked_eq {x : Binary64} (finite : x.isFinite = true) :
    x.unpacked = scaled x.signOf x.significand x.power := by
  have number : x.isNaN = false := by
    rw [← Bool.not_eq_true, isNaN_iff]
    exact ((isFinite_iff x).mp finite).not_gt
  have notTop : ¬unpackExponent x.pattern = -1#11 := by
    rw [← BitVec.toNat_inj, toNat_unpackExponent]
    exact of_decide_eq_true finite
  have bottom : unpackExponent x.pattern = 0#11 ↔ x.exponentField = 0 := by
    rw [← BitVec.toNat_inj, toNat_unpackExponent]
    rfl
  have nothing : unpackMantissa x.pattern = 0#52 ↔ x.fraction = 0 := by
    rw [← BitVec.toNat_inj, toNat_unpackMantissa]
    rfl
  rw [unpacked_eq_unpack number, unpack]
  dsimp only
  rw [if_neg notTop, ofBitVec_unpackSign, scaled]
  by_cases subnormal : x.exponentField = 0
  · rw [if_pos (bottom.mpr subnormal)]
    have low : x.significand = x.fraction := by rw [significand, if_pos subnormal]
    by_cases isZero : x.fraction = 0
    · rw [dif_pos (nothing.mpr isZero), dif_pos (low.trans isZero)]
    · rw [dif_neg (nothing.not.mpr isZero), dif_neg (low ▸ isZero), UnpackedFloat.finite.injEq]
      refine ⟨rfl, x.toNat_unpackMantissa.trans low.symm, ?_⟩
      rw [toNat_unpackExponent, subnormal, power, subnormal]
      rfl
  · have high : x.significand = twoTo 52 + x.fraction := by rw [significand, if_neg subnormal]
    have positive : ¬x.significand = 0 := by
      have shift := twoTo_pos 52
      omega
    rw [if_neg (bottom.not.mpr subnormal), dif_neg positive, UnpackedFloat.finite.injEq]
    refine ⟨rfl, ?_, ?_⟩
    · rw [BitVec.toNat_append, ← Nat.shiftLeft_add_eq_or_of_lt (BitVec.isLt _),
        toNat_unpackMantissa, high]
      rfl
    · rw [toNat_unpackExponent, power]
      change (x.exponentField : ℤ) - (1023 + 52) = _
      omega

theorem unpacked_eq_zero {x : Binary64} (finite : x.isFinite = true)
    (nothing : x.significand = 0) : x.unpacked = .zero x.signOf := by
  rw [unpacked_eq finite, scaled, dif_pos nothing]

theorem unpacked_eq_finite {x : Binary64} (finite : x.isFinite = true)
    (positive : 0 < x.significand) :
    x.unpacked = .finite x.signOf x.significand x.power positive := by
  rw [unpacked_eq finite, scaled, dif_neg positive.ne']

theorem rational_eq_signed (x : Binary64) :
    x.rational = signed x.signOf (x.significand * 2 ^ x.power) := by
  rw [rational, magnitude_eq, signOf]
  cases x.isNegative <;> rfl

theorem rational_eq_zero {x : Binary64} (nothing : x.significand = 0) : x.rational = 0 := by
  rw [← abs_eq_zero, abs_rational, nothing, Nat.cast_zero, zero_mul]

theorem signOf_neg (x : Binary64) : (-x).signOf = -x.signOf := by
  rw [signOf, signOf, isNegative_neg]
  cases x.isNegative <;> rfl

theorem unpacked_neg {x : Binary64} (finite : x.isFinite = true) :
    (-x).unpacked = x.unpacked.neg := by
  have significandEq : (-x).significand = x.significand := by
    rw [significand, significand, exponentField_neg, fraction_eq, fraction_eq, magnitudeBits_neg]
  rw [unpacked_eq finite, unpacked_eq ((isFinite_neg x).trans finite), signOf_neg, significandEq,
    power_neg, scaled, scaled]
  split <;> rfl

theorem settled_eq_packed (operands : List Binary64) {number : UnpackedFloat}
    (isNumber : (packed number).isNaN = false) :
    settled operands ⟨.pack number⟩ = packed number := by
  apply if_neg
  intro undefined
  have unpackedEq : unpack .binary64 (packed number).pattern = .notANumber :=
    Float.Model.UnpackedFloat.isNaN_iff.mp undefined
  have patternEq := pack_unpack (packed number).pattern
  rw [isNaNBits_pattern, isNumber, if_neg Bool.false_ne_true, unpackedEq] at patternEq
  have isNaN : isNaNBits (packed number).pattern = true := by
    rw [← patternEq]
    exact isNaNBits_packedNaN
  rw [isNaNBits_pattern, isNumber] at isNaN
  cases isNaN

theorem roundsTo_packed_zero (sign : Sign) : RoundsTo (packed (.zero sign)) 0 := by
  have stands := roundsTo_signed (x := packed (.zero sign)) le_rfl
    (by rw [magnitudeBits_packed_zero]; exact nearestBits_zero) (isNegative_packed_zero sign)
  cases sign with
  | negative => rwa [signed, neg_zero] at stands
  | positive => exact stands

theorem RoundsTo.settled {operands : List Binary64} {number : UnpackedFloat} {q : ℚ}
    (rounds : RoundsTo (packed number) q) :
    RoundsTo (Binary64.settled operands ⟨.pack number⟩) q := by
  rw [settled_eq_packed operands rounds.not_isNaN]
  exact rounds

theorem packed_unpacked {x : Binary64} (finite : x.isFinite = true) : packed x.unpacked = x :=
  eq_of_pattern (pack_unpacked_of_isFinite finite)

/-! ### Sums and differences -/

theorem cast_shiftLeft (significand count : ℕ) :
    ((significand <<< count : ℕ) : ℚ) = significand * 2 ^ (count : ℤ) := by
  rw [Nat.shiftLeft_eq, Nat.cast_mul, Nat.cast_pow, Nat.cast_ofNat, zpow_natCast]

theorem two_pow_le_shiftLeft {significand bits count : ℕ} (positive : 0 < significand)
    (lengthened : bits ≤ significand.log2 + count) : 2 ^ bits ≤ significand <<< count :=
  calc 2 ^ bits ≤ 2 ^ (significand.log2 + count) := Nat.pow_le_pow_right two_pos lengthened
    _ = 2 ^ significand.log2 * 2 ^ count := pow_add _ _ _
    _ ≤ significand * 2 ^ count := Nat.mul_le_mul_right _ (Nat.log2_self_le positive.ne')
    _ = significand <<< count := (Nat.shiftLeft_eq _ _).symm

theorem roundsTo_round (sign : Sign) {significand : ℕ} (positive : 0 < significand)
    (exponent : ℤ) :
    RoundsTo (packed (UnpackedFloat.round .binary64 sign significand exponent))
      (signed sign (significand * 2 ^ exponent)) := by
  obtain ⟨count, countEq⟩ : ∃ count, count =
      (exponent - targetExponent significand exponent).toNat := ⟨_, rfl⟩
  have value : ((significand <<< count : ℕ) : ℚ) * 2 ^ (exponent - count) =
      significand * 2 ^ exponent := by
    rw [cast_shiftLeft, mul_assoc, ← zpow_add₀ two_ne_zero, add_sub_cancel]
  have long : twoTo 52 ≤ significand <<< count ∨ exponent - count ≤ -1074 := by
    rw [targetExponent] at countEq
    refine (le_or_gt (exponent - count) (-1074)).symm.imp_left fun above => ?_
    exact two_pow_le_shiftLeft positive (by omega)
  have rounds := roundsTo_roundWithAccuracy sign (.exact _) long
  rw [value] at rounds
  have rounded : UnpackedFloat.round .binary64 sign significand exponent =
      roundWithAccuracy .binary64 sign (significand <<< count) (exponent - count) .exact := by
    rw [countEq, ← targetExponent_totalExponent]
    rfl
  rw [rounded]
  exact rounds

theorem roundsTo_normalize (significand exponent : ℤ) :
    RoundsTo (packed (UnpackedFloat.normalize .binary64 significand exponent .positive))
      (significand * 2 ^ exponent) := by
  rcases lt_trichotomy significand 0 with negative | rfl | positive
  · have rounds := roundsTo_round .negative (by omega : 0 < (-significand).toNat) exponent
    have size : (((-significand).toNat : ℕ) : ℚ) = -significand := by
      exact_mod_cast Int.toNat_of_nonneg (by omega : 0 ≤ -significand)
    rw [signed, size, neg_mul, neg_neg] at rounds
    have below : compare significand 0 = .lt := compare_lt_iff_lt.mpr negative
    rw [UnpackedFloat.normalize, below]
    exact rounds
  · rw [Int.cast_zero, zero_mul]
    exact roundsTo_packed_zero .positive
  · have rounds := roundsTo_round .positive (by omega : 0 < significand.toNat) exponent
    have size : ((significand.toNat : ℕ) : ℚ) = significand := by
      exact_mod_cast Int.toNat_of_nonneg positive.le
    rw [signed, size] at rounds
    have above : compare significand 0 = .gt := compare_gt_iff_gt.mpr positive
    rw [UnpackedFloat.normalize, above]
    exact rounds

theorem signed_apply (sign : Sign) (significand : ℕ) (q : ℚ) :
    ((sign.apply significand : ℤ) : ℚ) * q = signed sign (significand * q) := by
  cases sign with
  | negative =>
    change ((-(significand : ℤ) : ℤ) : ℚ) * q = _
    rw [Int.cast_neg, Int.cast_natCast, neg_mul]
    rfl
  | positive => rfl

theorem aligned_eq_rational (x : Binary64) {power : ℤ} (below : power ≤ x.power) :
    ((x.signOf.apply (decreaseExponent x.significand x.power power).1 : ℤ) : ℚ) * 2 ^ power =
      x.rational := by
  have value : ((decreaseExponent x.significand x.power power).1 : ℚ) * 2 ^ power =
      x.significand * 2 ^ x.power := by
    change ((x.significand <<< (x.power - power).toNat : ℕ) : ℚ) * 2 ^ power = _
    rw [cast_shiftLeft, Int.toNat_of_nonneg (by omega), mul_assoc, ← zpow_add₀ two_ne_zero,
      sub_add_cancel]
  rw [signed_apply, value, rational_eq_signed]

theorem roundsTo_packed_add {x y : Binary64} (finite : x.isFinite = true)
    (finite' : y.isFinite = true) :
    RoundsTo (packed (x.unpacked.add .binary64 y.unpacked)) (x.rational + y.rational) := by
  rcases Nat.eq_zero_or_pos x.significand with nothing | positive
  · rw [rational_eq_zero nothing, zero_add]
    rcases Nat.eq_zero_or_pos y.significand with nothing' | positive'
    · rw [rational_eq_zero nothing', unpacked_eq_zero finite nothing,
        unpacked_eq_zero finite' nothing', UnpackedFloat.add]
      split <;> exact roundsTo_packed_zero _
    · have sum : x.unpacked.add .binary64 y.unpacked = y.unpacked := by
        rw [unpacked_eq_zero finite nothing, unpacked_eq_finite finite' positive']
        rfl
      rw [sum, packed_unpacked finite']
      exact roundsTo_rational finite'
  rcases Nat.eq_zero_or_pos y.significand with nothing' | positive'
  · have sum : x.unpacked.add .binary64 y.unpacked = x.unpacked := by
      rw [unpacked_eq_finite finite positive, unpacked_eq_zero finite' nothing']
      rfl
    rw [rational_eq_zero nothing', add_zero, sum, packed_unpacked finite]
    exact roundsTo_rational finite
  · have rounds := roundsTo_normalize
      (x.signOf.apply (decreaseExponent x.significand x.power (min x.power y.power)).1 +
        y.signOf.apply (decreaseExponent y.significand y.power (min x.power y.power)).1)
      (min x.power y.power)
    rw [Int.cast_add, add_mul, aligned_eq_rational x (min_le_left _ _),
      aligned_eq_rational y (min_le_right _ _)] at rounds
    rw [unpacked_eq_finite finite positive, unpacked_eq_finite finite' positive']
    exact rounds

theorem roundsTo_add {x y : Binary64} (finite : x.isFinite = true) (finite' : y.isFinite = true) :
    RoundsTo (x + y) (x.rational + y.rational) := by
  rw [add_eq]
  exact (roundsTo_packed_add finite finite').settled

theorem unpacked_sub_eq_add (first second : UnpackedFloat) :
    first.sub .binary64 second = first.add .binary64 second.neg := by
  cases first with
  | finite sign significand exponent positive =>
    cases second with
    | finite sign' significand' exponent' positive' =>
      have opposite (n : ℤ) : (-sign').apply n = -sign'.apply n := by
        cases sign' with
        | negative => exact (neg_neg n).symm
        | positive => rfl
      change UnpackedFloat.normalize _ (_ - _) _ _ = UnpackedFloat.normalize _ (_ + _) _ _
      rw [opposite, ← Int.sub_eq_add_neg]
    | _ => rfl
  | _ => cases second <;> rfl

theorem roundsTo_sub {x y : Binary64} (finite : x.isFinite = true) (finite' : y.isFinite = true) :
    RoundsTo (x - y) (x.rational - y.rational) := by
  have rounds := roundsTo_packed_add finite ((isFinite_neg y).trans finite')
  rw [unpacked_neg finite', ← unpacked_sub_eq_add, rational_neg, ← sub_eq_add_neg] at rounds
  rw [sub_eq]
  exact rounds.settled

theorem signed_mul_signed (sign sign' : Sign) (q r : ℚ) :
    signed sign q * signed sign' r = signed (sign * sign') (q * r) := by
  cases sign with
  | negative =>
    cases sign' with
    | negative => exact neg_mul_neg q r
    | positive => exact neg_mul q r
  | positive =>
    cases sign' with
    | negative => exact mul_neg q r
    | positive => rfl

theorem signed_div_signed (sign sign' : Sign) (q r : ℚ) :
    signed sign q / signed sign' r = signed (sign / sign') (q / r) := by
  cases sign with
  | negative =>
    cases sign' with
    | negative => exact neg_div_neg_eq q r
    | positive => exact neg_div r q
  | positive =>
    cases sign' with
    | negative => exact div_neg q
    | positive => rfl

theorem roundsTo_mul {x y : Binary64} (finite : x.isFinite = true) (finite' : y.isFinite = true) :
    RoundsTo (x * y) (x.rational * y.rational) := by
  rw [mul_eq]
  apply RoundsTo.settled
  rcases Nat.eq_zero_or_pos x.significand with nothing | positive
  · have product : x.unpacked.mul .binary64 y.unpacked = .zero (x.signOf * y.signOf) := by
      rw [unpacked_eq_zero finite nothing, unpacked_eq finite', scaled]
      split <;> rfl
    rw [rational_eq_zero nothing, zero_mul, product]
    exact roundsTo_packed_zero _
  rcases Nat.eq_zero_or_pos y.significand with nothing' | positive'
  · have product : x.unpacked.mul .binary64 y.unpacked = .zero (x.signOf * y.signOf) := by
      rw [unpacked_eq_finite finite positive, unpacked_eq_zero finite' nothing']
      rfl
    rw [rational_eq_zero nothing', mul_zero, product]
    exact roundsTo_packed_zero _
  · have long : twoTo 52 ≤ x.significand * y.significand ∨ x.power + y.power ≤ -1074 := by
      rcases normal_significand x with subnormal | normal
      · rcases normal_significand y with subnormal' | normal'
        · exact .inr (by omega)
        · exact .inl (normal'.trans (Nat.le_mul_of_pos_left _ positive))
      · exact .inl (normal.trans (Nat.le_mul_of_pos_right _ positive'))
    have rounds := roundsTo_roundWithAccuracy (x.signOf * y.signOf) (.exact _) long
    have value : ((x.significand * y.significand : ℕ) : ℚ) * 2 ^ (x.power + y.power) =
        x.significand * 2 ^ x.power * (y.significand * 2 ^ y.power) := by
      rw [Nat.cast_mul, zpow_add₀ two_ne_zero]
      ring
    rw [value, ← signed_mul_signed, ← rational_eq_signed, ← rational_eq_signed] at rounds
    rw [unpacked_eq_finite finite positive, unpacked_eq_finite finite' positive']
    exact rounds

/-- The whole quotient of a division is long enough to be rounded, since the dividend is lengthened
before. -/
theorem long_quotient {dividend divisor count : ℕ} {exponent target : ℤ} (positive : 0 < dividend)
    (divisorPositive : 0 < divisor) (countEq : count = (exponent - target).toNat)
    (low : target ≤ max ((dividend.log2 : ℤ) - divisor.log2 + exponent - 53) (-1074)) :
    twoTo 52 ≤ (dividend <<< count) / divisor ∨ target ≤ -1074 := by
  refine (le_or_gt target (-1074)).symm.imp_left fun above => ?_
  rw [Nat.le_div_iff_mul_le divisorPositive]
  calc twoTo 52 * divisor ≤ 2 ^ 52 * 2 ^ (divisor.log2 + 1) :=
        Nat.mul_le_mul_left _ Nat.lt_log2_self.le
    _ = 2 ^ (52 + (divisor.log2 + 1)) := (pow_add _ _ _).symm
    _ ≤ dividend <<< count := two_pow_le_shiftLeft positive (by omega)

theorem roundsTo_div {x y : Binary64} (finite : x.isFinite = true) (finite' : y.isFinite = true)
    (nonzero : y.rational ≠ 0) : RoundsTo (x / y) (x.rational / y.rational) := by
  have positive' : 0 < y.significand :=
    Nat.pos_of_ne_zero fun nothing => nonzero (rational_eq_zero nothing)
  rw [div_eq]
  apply RoundsTo.settled
  rcases Nat.eq_zero_or_pos x.significand with nothing | positive
  · have quotient : x.unpacked.div .binary64 y.unpacked = .zero (x.signOf / y.signOf) := by
      rw [unpacked_eq_zero finite nothing, unpacked_eq_finite finite' positive']
      rfl
    rw [rational_eq_zero nothing, zero_div, quotient]
    exact roundsTo_packed_zero _
  · obtain ⟨target, targetEq⟩ : ∃ target, target = min (x.power - y.power)
        (Format.binary64.targetExponent
          (totalExponent x.significand x.power - totalExponent y.significand y.power)) := ⟨_, rfl⟩
    have below : target ≤ x.power - y.power := by omega
    have low : target ≤
        max ((x.significand.log2 : ℤ) - y.significand.log2 + (x.power - y.power) - 53) (-1074) := by
      rw [targetEq]
      refine (min_le_right _ _).trans (le_of_eq ?_)
      change max ((x.significand.log2 : ℤ) + 1 + x.power - (y.significand.log2 + 1 + y.power) - 53)
        (-1074) = _
      congr 1
      ring
    have rounds := roundsTo_roundWithAccuracy (x.signOf / y.signOf)
      (.quotient (x.significand <<< (x.power - y.power - target).toNat) positive')
      (long_quotient positive positive' rfl low)
    have value : ((x.significand <<< (x.power - y.power - target).toNat : ℕ) : ℚ) /
          y.significand * 2 ^ target =
        x.significand * 2 ^ x.power / (y.significand * 2 ^ y.power) := by
      rw [cast_shiftLeft, Int.toNat_of_nonneg (by omega), div_mul_eq_mul_div, mul_assoc,
        ← zpow_add₀ two_ne_zero, sub_add_cancel, zpow_sub₀ two_ne_zero]
      field_simp
    rw [value, ← signed_div_signed, ← rational_eq_signed, ← rational_eq_signed] at rounds
    rw [unpacked_eq_finite finite positive, unpacked_eq_finite finite' positive']
    rw [targetEq] at rounds
    exact rounds

theorem rational_mul_unit {x y : Binary64} (finite : x.isFinite = true)
    (finite' : y.isFinite = true) (unit : y.rational = 1 ∨ y.rational = -1) :
    (x * y).isFinite = true ∧ (x * y).rational = x.rational * y.rational := by
  have rounds := roundsTo_mul finite finite'
  rcases unit with one | minusOne
  · rw [one, mul_one] at rounds ⊢
    exact rounds.rational_eq finite
  · rw [minusOne, mul_neg_one, ← rational_neg] at rounds ⊢
    exact rounds.rational_eq ((isFinite_neg x).trans finite)

theorem roundsTo_ofNat (n : ℕ) : RoundsTo (ofNat n) n := by
  have rounds := roundsTo_ofRatio n Nat.one_pos
  rwa [Nat.cast_one, div_one] at rounds

theorem isFinite_ofNat {n : ℕ} (fits : n < 2 ^ 64) : (ofNat n).isFinite = true := by
  refine (roundsTo_ofNat n).isFinite_of_abs_le (roundsTo_ofNat (2 ^ 64)) ?_ (by decide)
  rw [Nat.abs_cast, Nat.abs_cast]
  exact_mod_cast fits.le

theorem rational_ofNat_nonneg {n : ℕ} (fits : n < 2 ^ 64) : 0 ≤ (ofNat n).rational :=
  (roundsTo_ofNat n).rational_nonneg (Nat.cast_nonneg n) (isFinite_ofNat fits)

theorem rational_ofNat_mono {m n : ℕ} (le : m ≤ n) (fits : n < 2 ^ 64) :
    (ofNat m).rational ≤ (ofNat n).rational := by
  have sizes := (roundsTo_ofNat m).abs_rational_le (roundsTo_ofNat n)
    (by rw [Nat.abs_cast, Nat.abs_cast]; exact_mod_cast le) (isFinite_ofNat fits)
  rwa [abs_of_nonneg (rational_ofNat_nonneg (le.trans_lt fits)),
    abs_of_nonneg (rational_ofNat_nonneg fits)] at sizes

theorem rational_ofNat_zero : (ofNat 0).rational = 0 := by decide +kernel

theorem rational_ofNat_one : (ofNat 1).rational = 1 := by decide +kernel

theorem rational_ofNat_two : (ofNat 2).rational = 2 := by decide +kernel

theorem rational_ofNat_pos {n : ℕ} (positive : 0 < n) (fits : n < 2 ^ 64) :
    0 < (ofNat n).rational := by
  have above := rational_ofNat_mono positive fits
  rw [rational_ofNat_one] at above
  exact one_pos.trans_le above

theorem rational_ofNat_double {n : ℕ} (positive : 0 < n) (fits : 2 * n < 2 ^ 64) :
    (ofNat (2 * n)).rational = 2 * (ofNat n).rational := by
  have rounds := roundsTo_ofNat (2 * n)
  rw [Nat.cast_mul, Nat.cast_ofNat] at rounds
  apply (roundsTo_ofNat n).rational_double rounds _ (isFinite_ofNat fits)
  calc (2 : ℚ) ^ (-1021 : ℤ) ≤ 2 ^ (0 : ℤ) := zpow_le_zpow_right₀ one_le_two (by norm_num)
    _ = ((1 : ℕ) : ℚ) := by rw [zpow_zero, Nat.cast_one]
    _ ≤ n := by exact_mod_cast positive

theorem isFinite_abs (x : Binary64) : x.abs.isFinite = x.isFinite := by
  rw [Bool.eq_iff_iff, isFinite_iff, isFinite_iff, abs,
    magnitudeBits_ofMagnitudeBits _ x.magnitudeBits_lt]

theorem rational_abs (x : Binary64) : x.abs.rational = |x.rational| := by
  have positive : x.abs.isNegative = false := isNegative_ofMagnitudeBits _ x.magnitudeBits_lt
  have bits : x.abs.magnitudeBits = x.magnitudeBits :=
    magnitudeBits_ofMagnitudeBits _ x.magnitudeBits_lt
  have nonneg : 0 ≤ x.abs.rational := by
    rw [rational, positive, if_neg Bool.false_ne_true]
    positivity
  rw [← abs_of_nonneg nonneg]
  exact RoundsTo.abs_rational_eq_of_magnitudeBits bits

theorem rational_nonneg_of_isLess {x : Binary64} (finite : x.isFinite = true)
    (notBelow : Scalar.isLess x Scalar.zero = false) : 0 ≤ x.rational := by
  by_contra below
  have positive : 0 < x.significand := by
    refine Nat.pos_of_ne_zero fun nothing => below ?_
    rw [rational_eq_zero nothing]
  have negative : x.signOf = .negative := by
    cases sign : x.isNegative with
    | true => rw [signOf, sign, if_pos rfl]
    | false => exact absurd ((roundsTo_rational finite).positive sign) below
  rw [scalar_zero_eq] at notBelow
  change decide (decide (x.unpacked.lt (.zero .positive))) = false at notBelow
  rw [unpacked_eq_finite finite positive, negative] at notBelow
  cases notBelow

theorem isFinite_of_unpacked {x : Binary64} (finite : x.unpacked.isFinite = true) :
    x.isFinite = true := by
  by_contra infinite
  cases undefined : x.isNaN with
  | true =>
    rw [unpacked_of_isNaN undefined] at finite
    cases finite
  | false =>
    have notAbove : ¬infinityBits < x.magnitudeBits := by
      rw [← isNaN_iff, undefined]
      exact Bool.false_ne_true
    have notBelow : ¬x.magnitudeBits < infinityBits := (isFinite_iff x).not.mp infinite
    have bits : x.magnitudeBits = infinityBits := by omega
    have whole := x.ofMagnitudeBits_eq_self
    rw [bits] at whole
    rw [← whole] at finite
    cases sign : x.isNegative with
    | true =>
      rw [sign] at finite
      exact absurd finite (by decide)
    | false =>
      rw [sign] at finite
      exact absurd finite (by decide)

theorem isFinite_of_settled {operands : List Binary64} {number : UnpackedFloat}
    (finite : (settled operands ⟨.pack number⟩).isFinite = true) : number.isFinite = true := by
  cases number with
  | notANumber =>
    rw [settled_notANumber, isFinite_undefinedAt] at finite
    cases finite
  | infinity sign =>
    have isNumber : (packed (.infinity sign)).isNaN = false := by cases sign <;> decide
    have infinite : (packed (.infinity sign)).isFinite = false := by cases sign <;> decide
    rw [settled_eq_packed operands isNumber, infinite] at finite
    cases finite
  | zero sign => rfl
  | finite sign significand exponent positive => rfl

theorem isFinite_of_unpacked_add {first second : UnpackedFloat}
    (finite : (first.add .binary64 second).isFinite = true) :
    first.isFinite = true ∧ second.isFinite = true := by
  cases first with
  | notANumber => cases finite
  | infinity sign =>
    cases second with
    | infinity sign' => cases sign <;> cases sign' <;> cases finite
    | _ => cases finite
  | _ =>
    cases second with
    | notANumber => cases finite
    | infinity sign' => cases finite
    | _ => exact ⟨rfl, rfl⟩

theorem isFinite_of_unpacked_mul {first second : UnpackedFloat}
    (finite : (first.mul .binary64 second).isFinite = true) :
    first.isFinite = true ∧ second.isFinite = true := by
  cases first with
  | notANumber => cases finite
  | infinity sign => cases second <;> cases finite
  | _ =>
    cases second with
    | notANumber => cases finite
    | infinity sign' => cases finite
    | _ => exact ⟨rfl, rfl⟩

variable {x y : Binary64}

theorem isFinite_of_add (finite : (x + y).isFinite = true) :
    x.isFinite = true ∧ y.isFinite = true := by
  rw [add_eq] at finite
  obtain ⟨first, second⟩ := isFinite_of_unpacked_add (isFinite_of_settled finite)
  exact ⟨isFinite_of_unpacked first, isFinite_of_unpacked second⟩

theorem isFinite_of_mul (finite : (x * y).isFinite = true) :
    x.isFinite = true ∧ y.isFinite = true := by
  rw [mul_eq] at finite
  obtain ⟨first, second⟩ := isFinite_of_unpacked_mul (isFinite_of_settled finite)
  exact ⟨isFinite_of_unpacked first, isFinite_of_unpacked second⟩

end Tangency.Binary64
