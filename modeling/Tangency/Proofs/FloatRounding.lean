/-
How `Float` rounds, against rounding to the nearest double.

`Float` rounds a significand that may have lost digits: it keeps the first lost binary digit and
whether anything is left below it.  These two say enough to find the nearest whole number, before
and after further digits are dropped.  Packing then puts the rounded significand on its scale in the
same place of a pattern where the rounding of quotients puts it.
-/

import Tangency.Proofs.NearestDoubles
import Tangency.Proofs.UnpackedDoubles

namespace Tangency.Binary64

open Float.Model (UnpackedFloat Format totalExponent)
open Float.Model.UnpackedFloat

/-- The number is the significand with its first lost digit and a rest below that, which the last
digit tells from nothing. -/
inductive StandsFor : ExtendedMantissa → ℚ → Prop where
  | mk (whole : ℕ) (roundBit stickyBit : Bool) {rest : ℚ} (nonneg : 0 ≤ rest) (small : rest < 1 / 2)
      (sticky : stickyBit = true ↔ rest ≠ 0) :
      StandsFor ⟨whole, roundBit, stickyBit⟩ (whole + cond roundBit (1 / 2) 0 + rest)

namespace StandsFor

theorem exact (whole : ℕ) : StandsFor (.ofMantissaAndAccuracy whole .exact) whole := by
  have stands := mk whole false false le_rfl (by norm_num) (iff_of_false Bool.false_ne_true
    (not_not.mpr rfl))
  rwa [cond_false, add_zero, add_zero] at stands

theorem quotient (numerator : ℕ) {denominator : ℕ} (positive : 0 < denominator) :
    StandsFor
      (.ofMantissaAndAccuracy (numerator / denominator)
        (accuracyOfFraction (numerator % denominator) denominator))
      ((numerator : ℚ) / denominator) := by
  have small := Nat.mod_lt numerator positive
  rw [div_eq_add_rest numerator positive, accuracyOfFraction]
  generalize numerator / denominator = whole
  generalize numerator % denominator = rest at small
  have below : (rest : ℚ) / denominator < 1 := by
    rw [div_lt_one (Nat.cast_pos.mpr positive)]
    exact_mod_cast small
  split_ifs with nothing
  · rw [nothing, Nat.cast_zero, zero_div, add_zero]
    exact exact whole
  have above : (0 : ℚ) < rest / denominator := by
    have positiveRest : (0 : ℚ) < rest := Nat.cast_pos.mpr (Nat.pos_of_ne_zero nothing)
    positivity
  rcases lt_trichotomy (2 * rest) denominator with less | same | greater
  · have lower := (div_lt_half_iff positive).mpr less
    have stands := mk whole false true above.le lower (iff_of_true rfl above.ne')
    rw [cond_false, add_zero] at stands
    rwa [Nat.compare_eq_lt.mpr less]
  · have middle := (div_eq_half_iff positive).mpr same
    have stands := mk whole true false le_rfl (by norm_num) (iff_of_false Bool.false_ne_true
      (not_not.mpr rfl))
    rw [cond_true, add_zero] at stands
    rwa [Nat.compare_eq_eq.mpr same, middle]
  · have higher := (half_lt_div_iff positive).mpr greater
    have remains : 0 < (rest : ℚ) / denominator - 1 / 2 := sub_pos.mpr higher
    have stands := mk whole true true remains.le (by linarith) (iff_of_true rfl remains.ne')
    rw [cond_true, add_assoc, add_sub_cancel] at stands
    rwa [Nat.compare_eq_gt.mpr greater]

variable {extended : ExtendedMantissa} {y : ℚ}

theorem mantissa_le (stands : StandsFor extended y) : (extended.mantissa : ℚ) ≤ y := by
  obtain ⟨whole, roundBit, stickyBit, nonneg, -, -⟩ := stands
  cases roundBit <;> simp only [cond_true, cond_false] <;> linarith

theorem lt_mantissa_succ (stands : StandsFor extended y) : y < extended.mantissa + 1 := by
  obtain ⟨whole, roundBit, stickyBit, -, small, -⟩ := stands
  cases roundBit <;> simp only [cond_true, cond_false] <;> linarith

theorem isNearest (stands : StandsFor extended y) : IsNearest y extended.roundedMantissa := by
  obtain ⟨whole, roundBit, stickyBit, nonneg, small, sticky⟩ := stands
  rename_i rest
  cases roundBit with
  | false =>
    rw [cond_false, add_zero]
    have rounded : (⟨whole, false, stickyBit⟩ : ExtendedMantissa).roundedMantissa = whole := by
      cases stickyBit <;> rfl
    rw [rounded]
    apply IsNearest.of_lt
    rwa [add_sub_cancel_left, abs_of_nonneg nonneg]
  | true =>
    rw [cond_true]
    cases stickyBit with
    | false =>
      obtain rfl : rest = 0 := not_not.mp fun something => Bool.false_ne_true (sticky.mpr something)
      rw [add_zero]
      exact .half whole
    | true =>
      have positive := lt_of_le_of_ne nonneg (sticky.mp rfl).symm
      have rounded : (⟨whole, true, true⟩ : ExtendedMantissa).roundedMantissa = whole + 1 := rfl
      rw [rounded]
      apply IsNearest.of_lt
      rw [Nat.cast_succ, abs_of_nonpos (by linarith)]
      linarith

/-- One more digit is lost. The first lost digit becomes part of the rest. -/
theorem shiftRightOne (stands : StandsFor extended y) :
    StandsFor extended.shiftRightOne (y / 2) := by
  obtain ⟨whole, roundBit, stickyBit, nonneg, small, sticky⟩ := stands
  rename_i rest
  have parts : (whole : ℚ) = 2 * (whole / 2 : ℕ) + (whole % 2 : ℕ) := by
    exact_mod_cast (Nat.div_add_mod whole 2).symm
  have digit : cond (whole % 2 != 0) (1 / 2 : ℚ) 0 = ((whole % 2 : ℕ) : ℚ) / 2 := by
    rcases Nat.mod_two_eq_zero_or_one whole with even | odd
    · rw [even, Nat.cast_zero, zero_div]
      rfl
    · rw [odd, Nat.cast_one]
      rfl
  have halved : (whole + cond roundBit (1 / 2) 0 + rest) / 2 =
      (whole / 2 : ℕ) + cond (whole % 2 != 0) (1 / 2) 0 + (cond roundBit (1 / 2) 0 + rest) / 2 := by
    rw [digit, parts]
    ring
  rw [halved]
  apply mk (whole / 2) (whole % 2 != 0) (roundBit || stickyBit)
  · cases roundBit <;> simp only [cond_true, cond_false] <;> linarith
  · cases roundBit <;> simp only [cond_true, cond_false] <;> linarith
  · cases roundBit with
    | false => simpa using sticky
    | true =>
      rw [cond_true]
      exact iff_of_true rfl (by linarith)

theorem shiftRight (stands : StandsFor extended y) (count : ℕ) :
    StandsFor (extended >>> count) (y / 2 ^ count) := by
  change StandsFor (count.repeat ExtendedMantissa.shiftRightOne extended) _
  induction count with
  | zero =>
    rw [pow_zero, div_one]
    exact stands
  | succ count ih =>
    rw [pow_succ, ← div_div]
    exact ih.shiftRightOne

end StandsFor

/-! ### Packing -/

def packed (number : UnpackedFloat) : Binary64 := ⟨⟨pack .binary64 number⟩⟩

def signed (sign : Sign) (q : ℚ) : ℚ :=
  match sign with
  | .negative => -q
  | .positive => q

theorem roundsTo_signed {x : Binary64} {sign : Sign} {q : ℚ} (nonneg : 0 ≤ q)
    (nearest : NearestBits q x.magnitudeBits) (signEq : x.isNegative = (sign == .negative)) :
    RoundsTo x (signed sign q) := by
  cases sign with
  | negative =>
    refine ⟨?_, fun _ => neg_nonpos.mpr nonneg, fun isPositive => ?_⟩
    · rwa [signed, abs_neg, abs_of_nonneg nonneg]
    · rw [signEq] at isPositive
      cases isPositive
  | positive =>
    refine ⟨?_, fun isNegative => ?_, fun _ => nonneg⟩
    · rwa [signed, abs_of_nonneg nonneg]
    · rw [signEq] at isNegative
      cases isNegative

section Components

variable (sign : Sign) (exponent : BitVec 11) (fraction : BitVec 52)

theorem magnitudeBits_packComponents :
    (⟨⟨packComponents .binary64 sign exponent fraction⟩⟩ : Binary64).magnitudeBits =
      exponent.toNat * twoTo 52 + fraction.toNat := by
  rw [magnitudeBits_eq, ← toNat_unpackExponent, ← toNat_unpackMantissa, pattern]
  rw [unpackExponent_packComponents, unpackMantissa_packComponents]

theorem isNegative_packComponents :
    (⟨⟨packComponents .binary64 sign exponent fraction⟩⟩ : Binary64).isNegative =
      (sign == .negative) := by
  have whole : (sign.toBitVec ++ exponent ++ fraction).toNat =
      (sign.toBitVec.toNat * twoTo 11 + exponent.toNat) * twoTo 52 + fraction.toNat := by
    rw [BitVec.toNat_append, ← Nat.shiftLeft_add_eq_or_of_lt fraction.isLt, BitVec.toNat_append,
      ← Nat.shiftLeft_add_eq_or_of_lt exponent.isLt, Nat.shiftLeft_eq, Nat.shiftLeft_eq]
    rfl
  have exponentLt := exponent.isLt
  have fractionLt := fraction.isLt
  have field : twoTo 11 = 2048 := rfl
  have shift : twoTo 52 = 4503599627370496 := rfl
  have top : twoTo 63 = 9223372036854775808 := rfl
  change decide (twoTo 63 ≤ (sign.toBitVec ++ exponent ++ fraction).toNat) = _
  rw [whole, field, shift, top]
  cases sign with
  | negative =>
    have one : Sign.negative.toBitVec.toNat = 1 := rfl
    rw [one]
    exact decide_eq_true (by omega)
  | positive =>
    have none : Sign.positive.toBitVec.toNat = 0 := rfl
    rw [none]
    exact decide_eq_false (by omega)

end Components

/-- A significand that fits its exponent: of 53 bits, or of fewer on the finest scale. -/
structure Fits (significand : ℕ) (exponent : ℤ) : Prop where
  finest : -1074 ≤ exponent
  below : significand < twoTo 53
  normal : exponent = -1074 ∨ twoTo 52 ≤ significand

theorem isNegative_packed_finite (sign : Sign) (significand : ℕ) (exponent : ℤ)
    (positive : 0 < significand) :
    (packed (.finite sign significand exponent positive)).isNegative = (sign == .negative) := by
  rw [packed, pack]
  dsimp only
  split_ifs
  · exact isNegative_packComponents sign _ _
  · exact isNegative_packComponents sign _ _
  · exact isNegative_packComponents sign _ _

theorem Fits.log2_eq_iff {significand : ℕ} {exponent : ℤ} (fits : Fits significand exponent)
    (positive : 0 < significand) : significand.log2 = 52 ↔ twoTo 52 ≤ significand := by
  constructor
  · intro length
    rw [twoTo, ← length]
    exact Nat.log2_self_le positive.ne'
  · intro hidden
    exact (Nat.log2_eq_iff positive.ne').mpr ⟨hidden, fits.below⟩

theorem Fits.le_infinityBits {significand : ℕ} {exponent : ℤ} (fits : Fits significand exponent)
    (within : (exponent + 1074).toNat < 2046) :
    (exponent + 1074).toNat * twoTo 52 + significand ≤ infinityBits := by
  have shift : twoTo 52 = 4503599627370496 := rfl
  have top : twoTo 53 = 9007199254740992 := rfl
  have limit : infinityBits = 9218868437227405312 := rfl
  have below := fits.below
  rw [shift, limit]
  omega

theorem magnitudeBits_packed_finite (sign : Sign) {significand : ℕ} {exponent : ℤ}
    (fits : Fits significand exponent) (positive : 0 < significand) :
    (packed (.finite sign significand exponent positive)).magnitudeBits =
      min ((exponent + 1074).toNat * twoTo 52 + significand) infinityBits := by
  have shift : twoTo 52 = 4503599627370496 := rfl
  have top : twoTo 53 = 9007199254740992 := rfl
  have finest := fits.finest
  have below := fits.below
  have biased : (exponent + (Format.binary64.exponentBias : ℤ) +
      (Format.binary64.mantissaBitsWithoutImplicit : ℤ)).toNat = (exponent + 1074).toNat + 1 := by
    change (exponent + 1023 + 52).toNat = _
    omega
  rw [packed, pack]
  dsimp only
  rw [biased]
  split_ifs with overflows isNormal
  · have beyond : 2048 ≤ (exponent + 1074).toNat + 1 + 1 := overflows
    have hidden : twoTo 52 ≤ significand := fits.normal.resolve_left (by omega)
    have carried : infinityBits ≤ (exponent + 1074).toNat * twoTo 52 + significand := by
      have limit : infinityBits = 9218868437227405312 := rfl
      rw [shift] at hidden ⊢
      omega
    rw [Nat.min_eq_right carried]
    exact magnitudeBits_packComponents sign (-1#_) 0
  · have within : ¬2048 ≤ (exponent + 1074).toNat + 1 + 1 := overflows
    have hidden := (fits.log2_eq_iff positive).mp (Nat.succ.inj isNormal)
    have field : (BitVec.ofNat 11 ((exponent + 1074).toNat + 1)).toNat =
        (exponent + 1074).toNat + 1 := by
      rw [BitVec.toNat_ofNat]
      exact Nat.mod_eq_of_lt (by omega)
    have fraction : (BitVec.ofNat 52 significand).toNat = significand - twoTo 52 := by
      rw [BitVec.toNat_ofNat]
      omega
    rw [Nat.min_eq_left (fits.le_infinityBits (by omega))]
    refine (magnitudeBits_packComponents sign _ _).trans ?_
    rw [field, fraction, Nat.succ_mul]
    omega
  · have small : ¬twoTo 52 ≤ significand := fun hidden =>
      isNormal (congrArg Nat.succ ((fits.log2_eq_iff positive).mpr hidden))
    obtain rfl : exponent = -1074 := fits.normal.resolve_right small
    have fraction : (BitVec.ofNat 52 significand).toNat = significand := by
      rw [BitVec.toNat_ofNat]
      exact Nat.mod_eq_of_lt (not_le.mp small)
    rw [Nat.min_eq_left (fits.le_infinityBits (by decide))]
    refine (magnitudeBits_packComponents sign _ _).trans ?_
    rw [fraction]
    rfl

theorem magnitudeBits_packed_zero (sign : Sign) : (packed (.zero sign)).magnitudeBits = 0 := by
  cases sign <;> rfl

theorem isNegative_packed_zero (sign : Sign) :
    (packed (.zero sign)).isNegative = (sign == .negative) := by
  cases sign <;> rfl

def targetExponent (significand : ℕ) (exponent : ℤ) : ℤ :=
  max (significand.log2 + exponent - 52) (-1074)

theorem targetExponent_totalExponent (significand : ℕ) (exponent : ℤ) :
    Format.binary64.targetExponent (totalExponent significand exponent) =
      targetExponent significand exponent := by
  change max ((significand.log2 : ℤ) + 1 + exponent - 53) (-1074) = _
  rw [targetExponent]
  congr 1
  ring

theorem shiftToTargetExponent_eq (significand : ℕ) (exponent : ℤ) (accuracy : Accuracy) :
    shiftToTargetExponent .binary64 significand exponent accuracy =
      (ExtendedMantissa.ofMantissaAndAccuracy significand accuracy >>>
          (targetExponent significand exponent - exponent).toNat,
        exponent + (targetExponent significand exponent - exponent).toNat) := by
  change shiftToExponent significand exponent accuracy
    (Format.binary64.targetExponent (totalExponent significand exponent)) = _
  rw [targetExponent_totalExponent]
  rfl

/-- A rounded significand is shifted at most once more, if it is `2 ^ 53`, and keeps its place in
the pattern. -/
theorem fits_shiftToTargetExponent {significand : ℕ} {exponent : ℤ} (finest : -1074 ≤ exponent)
    (carried : significand ≤ twoTo 53) (normal : exponent = -1074 ∨ twoTo 52 ≤ significand) :
    ∃ significand' exponent', Fits significand' exponent' ∧
      shiftToTargetExponent .binary64 significand exponent .exact =
        (⟨significand', false, false⟩, exponent') ∧
      (exponent' + 1074).toNat * twoTo 52 + significand' =
        (exponent + 1074).toNat * twoTo 52 + significand := by
  rw [shiftToTargetExponent_eq, targetExponent]
  rcases carried.eq_or_lt with rfl | below
  · have length : (twoTo 53).log2 = 53 := by decide
    have once : (max (((53 : ℕ) : ℤ) + exponent - 52) (-1074) - exponent).toNat = 1 := by omega
    rw [length, once]
    refine ⟨twoTo 52, exponent + 1, ⟨by omega, by decide, .inr le_rfl⟩, rfl, ?_⟩
    have next : (exponent + 1 + 1074).toNat = (exponent + 1074).toNat + 1 := by omega
    rw [next, twoTo_succ 52]
    ring
  · have length : significand.log2 ≤ 52 := by
      rcases Nat.eq_zero_or_pos significand with rfl | positive
      · decide
      · exact Nat.le_of_lt_succ ((Nat.log2_lt positive.ne').mpr below)
    have none : (max ((significand.log2 : ℤ) + exponent - 52) (-1074) - exponent).toNat = 0 := by
      omega
    rw [none]
    refine ⟨significand, exponent, ⟨finest, below, normal⟩, ?_, rfl⟩
    rw [Nat.cast_zero, add_zero]
    rfl

def scaled (sign : Sign) (significand : ℕ) (exponent : ℤ) : UnpackedFloat :=
  if nothing : significand = 0 then .zero sign
  else .finite sign significand exponent (Nat.pos_of_ne_zero nothing)

theorem isNegative_packed_scaled (sign : Sign) (significand : ℕ) (exponent : ℤ) :
    (packed (scaled sign significand exponent)).isNegative = (sign == .negative) := by
  unfold scaled
  split
  · exact isNegative_packed_zero sign
  · exact isNegative_packed_finite sign significand exponent _

theorem magnitudeBits_packed_scaled (sign : Sign) {significand : ℕ} {exponent : ℤ}
    (fits : Fits significand exponent) :
    (packed (scaled sign significand exponent)).magnitudeBits =
      min ((exponent + 1074).toNat * twoTo 52 + significand) infinityBits := by
  unfold scaled
  split
  · rename_i nothing
    subst nothing
    obtain rfl : exponent = -1074 := fits.normal.resolve_right (by decide)
    rw [magnitudeBits_packed_zero]
    rfl
  · exact magnitudeBits_packed_finite sign fits _

theorem roundWithAccuracy_eq (sign : Sign) {significand first last : ℕ}
    {exponent firstExponent lastExponent : ℤ} {accuracy : Accuracy} {shifted : ExtendedMantissa}
    (shift : shiftToTargetExponent .binary64 significand exponent accuracy =
      (shifted, firstExponent))
    (rounded : shifted.roundedMantissa = first)
    (again : shiftToTargetExponent .binary64 first firstExponent .exact =
      (⟨last, false, false⟩, lastExponent)) :
    roundWithAccuracy .binary64 sign significand exponent accuracy =
      scaled sign last lastExponent := by
  unfold roundWithAccuracy
  rw [shift]
  dsimp only
  rw [rounded, again]
  rfl

theorem isScale_targetExponent {extended : ExtendedMantissa} {y : ℚ} {exponent : ℤ}
    (stands : StandsFor extended y) (long : twoTo 52 ≤ extended.mantissa ∨ exponent ≤ -1074) :
    IsScale (y * 2 ^ exponent) (targetExponent extended.mantissa exponent) := by
  obtain ⟨target, targetEq⟩ : ∃ target, target = targetExponent extended.mantissa exponent :=
    ⟨_, rfl⟩
  rw [← targetEq]
  rw [targetExponent] at targetEq
  refine ⟨by omega, ?_, ?_⟩
  · have below : y < 2 ^ (extended.mantissa.log2 + 1) := by
      have succ : (extended.mantissa + 1 : ℚ) ≤ 2 ^ (extended.mantissa.log2 + 1) := by
        exact_mod_cast Nat.succ_le_of_lt Nat.lt_log2_self
      exact stands.lt_mantissa_succ.trans_le succ
    calc y * 2 ^ exponent < 2 ^ (extended.mantissa.log2 + 1) * 2 ^ exponent := by gcongr
      _ = (2 : ℚ) ^ ((extended.mantissa.log2 : ℤ) + 1 + exponent) := by
        rw [← zpow_natCast, ← zpow_add₀ two_ne_zero, Nat.cast_succ]
      _ ≤ 2 ^ (target + 53) := zpow_le_zpow_right₀ one_le_two (by omega)
  · rcases Nat.eq_zero_or_pos extended.mantissa with nothing | positive
    · refine .inl ?_
      have fine : exponent ≤ -1074 := long.resolve_left (by rw [nothing]; decide)
      have length : extended.mantissa.log2 = 0 := by rw [nothing]; rfl
      omega
    · refine (lt_or_ge ((extended.mantissa.log2 : ℤ) + exponent - 52) (-1074)).imp
        (fun subnormal => by omega) fun normal => ?_
      have above : (2 : ℚ) ^ extended.mantissa.log2 ≤ y := by
        have low : (2 : ℚ) ^ extended.mantissa.log2 ≤ extended.mantissa := by
          exact_mod_cast Nat.log2_self_le positive.ne'
        exact low.trans stands.mantissa_le
      calc (2 : ℚ) ^ (target + 52) = 2 ^ extended.mantissa.log2 * 2 ^ exponent := by
            rw [← zpow_natCast, ← zpow_add₀ two_ne_zero]
            congr 1
            omega
        _ ≤ y * 2 ^ exponent := by gcongr

theorem le_targetExponent {significand : ℕ} {exponent : ℤ}
    (long : twoTo 52 ≤ significand ∨ exponent ≤ -1074) :
    exponent ≤ targetExponent significand exponent := by
  rw [targetExponent]
  rcases long with long | fine
  · have positive : 0 < significand := (twoTo_pos 52).trans_le long
    have length : 52 ≤ significand.log2 := (Nat.le_log2 positive.ne').mpr long
    omega
  · omega

theorem roundsTo_roundWithAccuracy (sign : Sign) {significand : ℕ} {exponent : ℤ}
    {accuracy : Accuracy} {y : ℚ}
    (stands : StandsFor (.ofMantissaAndAccuracy significand accuracy) y)
    (long : twoTo 52 ≤ significand ∨ exponent ≤ -1074) :
    RoundsTo (packed (roundWithAccuracy .binary64 sign significand exponent accuracy))
      (signed sign (y * 2 ^ exponent)) := by
  have start : (ExtendedMantissa.ofMantissaAndAccuracy significand accuracy).mantissa =
      significand := by
    rcases accuracy with - | ⟨- | - | -⟩ <;> rfl
  have nonneg : 0 ≤ y := (Nat.cast_nonneg _).trans stands.mantissa_le
  have scale : IsScale (y * 2 ^ exponent) (targetExponent _ exponent) :=
    isScale_targetExponent stands (start.symm ▸ long)
  have shift := shiftToTargetExponent_eq significand exponent accuracy
  have above := le_targetExponent long
  rw [start] at scale
  generalize targetExponent significand exponent = target at scale shift above
  have reached : exponent + (target - exponent).toNat = target := by omega
  rw [reached] at shift
  have divided : y / 2 ^ (target - exponent).toNat = y * 2 ^ exponent / 2 ^ target := by
    rw [← zpow_natCast, Int.toNat_of_nonneg (by omega), zpow_sub₀ two_ne_zero, div_div_eq_mul_div]
  have nearest := (stands.shiftRight (target - exponent).toNat).isNearest
  rw [divided] at nearest
  obtain ⟨last, lastExponent, fits, again, place⟩ := fits_shiftToTargetExponent scale.finest
    (scale.whole_le nearest) (scale.le_whole nearest)
  rw [roundWithAccuracy_eq sign shift rfl again]
  apply roundsTo_signed (by positivity)
  · rw [magnitudeBits_packed_scaled sign fits, place]
    exact ⟨target, _, scale, nearest, rfl⟩
  · exact isNegative_packed_scaled sign last lastExponent

end Tangency.Binary64
