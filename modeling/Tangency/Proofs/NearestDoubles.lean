/-
Rounding to the nearest double, as a relation between numbers and bit patterns.

A number lies on the scale of a power of two: the one for which its significand has 53 bits, or the
finest of all.  The bits of its nearest double follow from the whole number nearest to the
significand, so more bits belong to a greater number, and a number has one pattern only.  A double
rounds to itself, and the bits of a whole significand tell the exact value of their double.
-/

import Mathlib.Tactic.FieldSimp
import Mathlib.Tactic.Linarith
import Mathlib.Tactic.NormNum
import Tangency.Proofs.ExactValues

namespace Tangency.Binary64

/-- A whole number at most one half away, and even if it is exactly one half away. -/
structure IsNearest (q : ℚ) (whole : ℕ) : Prop where
  close : |q - whole| ≤ 1 / 2
  even : |q - whole| = 1 / 2 → Even whole

theorem IsNearest.self (whole : ℕ) : IsNearest whole whole where
  close := by
    rw [sub_self, abs_zero]
    norm_num
  even tie := by
    rw [sub_self, abs_zero] at tie
    norm_num at tie

/-- The nearest whole number grows with the number. At a tie between two of them, both would be
even. -/
theorem IsNearest.mono {q r : ℚ} {k l : ℕ} (first : IsNearest q k) (second : IsNearest r l)
    (le : q ≤ r) : k ≤ l := by
  by_contra crossed
  have apart : (l : ℚ) + 1 ≤ k := by exact_mod_cast Nat.lt_of_not_le crossed
  have low := (abs_le.mp first.close).1
  have high := (abs_le.mp second.close).2
  have firstTie : |q - k| = 1 / 2 := by
    rw [abs_of_nonpos (by linarith)]
    linarith
  have secondTie : |r - l| = 1 / 2 := by
    rw [abs_of_nonneg (by linarith)]
    linarith
  have neighbours : k = l + 1 := by
    have cast : (k : ℚ) = l + 1 := by linarith
    exact_mod_cast cast
  have even := first.even firstTie
  rw [neighbours, Nat.even_add_one] at even
  exact even (second.even secondTie)

theorem IsNearest.unique {q : ℚ} {k l : ℕ} (first : IsNearest q k) (second : IsNearest q l) :
    k = l :=
  Nat.le_antisymm (first.mono second le_rfl) (second.mono first le_rfl)

theorem IsNearest.of_lt {q : ℚ} {whole : ℕ} (closer : |q - whole| < 1 / 2) : IsNearest q whole :=
  ⟨closer.le, fun tie => absurd tie closer.ne⟩

theorem IsNearest.half (whole : ℕ) : IsNearest (whole + 1 / 2) (whole + whole % 2) := by
  rcases Nat.mod_two_eq_zero_or_one whole with even | odd
  · have away : |(whole : ℚ) + 1 / 2 - whole| = 1 / 2 := by
      rw [add_sub_cancel_left, abs_of_pos one_half_pos]
    rw [even, Nat.add_zero]
    exact ⟨away.le, fun _ => Nat.even_iff.mpr even⟩
  · have away : |(whole : ℚ) + 1 / 2 - (whole + 1 : ℕ)| = 1 / 2 := by
      rw [Nat.cast_succ, abs_of_nonpos (by linarith)]
      linarith
    rw [odd]
    exact ⟨away.le, fun _ => Nat.even_iff.mpr (by omega)⟩

theorem div_eq_add_rest (numerator : ℕ) {denominator : ℕ} (positive : 0 < denominator) :
    (numerator : ℚ) / denominator =
      (numerator / denominator : ℕ) + ((numerator % denominator : ℕ) : ℚ) / denominator := by
  have positiveCast : (0 : ℚ) < denominator := Nat.cast_pos.mpr positive
  have parts : (numerator : ℚ) =
      denominator * (numerator / denominator : ℕ) + (numerator % denominator : ℕ) := by
    exact_mod_cast (Nat.div_add_mod numerator denominator).symm
  rw [parts, add_div, mul_div_cancel_left₀ _ positiveCast.ne']

section Half

variable {rest denominator : ℕ} (positive : 0 < denominator)

include positive

theorem div_lt_half_iff : (rest : ℚ) / denominator < 1 / 2 ↔ 2 * rest < denominator := by
  rw [div_lt_div_iff₀ (Nat.cast_pos.mpr positive) two_pos, one_mul, mul_comm]
  exact_mod_cast Iff.rfl

theorem div_eq_half_iff : (rest : ℚ) / denominator = 1 / 2 ↔ 2 * rest = denominator := by
  rw [div_eq_div_iff (Nat.cast_ne_zero.mpr positive.ne') two_ne_zero, one_mul, mul_comm]
  exact_mod_cast Iff.rfl

theorem half_lt_div_iff : 1 / 2 < (rest : ℚ) / denominator ↔ denominator < 2 * rest := by
  rw [div_lt_div_iff₀ two_pos (Nat.cast_pos.mpr positive), one_mul, mul_comm (rest : ℚ)]
  exact_mod_cast Iff.rfl

end Half

theorem isNearest_nearestEven (numerator : ℕ) {denominator : ℕ} (positive : 0 < denominator) :
    IsNearest ((numerator : ℚ) / denominator) (nearestEven numerator denominator) := by
  have small := Nat.mod_lt numerator positive
  rw [div_eq_add_rest numerator positive, nearestEven]
  generalize numerator / denominator = whole
  generalize numerator % denominator = rest at small
  have below : (rest : ℚ) / denominator < 1 := by
    rw [div_lt_one (Nat.cast_pos.mpr positive)]
    exact_mod_cast small
  have above : (0 : ℚ) ≤ rest / denominator := by positivity
  split_ifs with less greater
  · apply IsNearest.of_lt
    rw [add_sub_cancel_left, abs_of_nonneg above]
    exact (div_lt_half_iff positive).mpr less
  · have half := (half_lt_div_iff positive).mpr greater
    apply IsNearest.of_lt
    rw [Nat.cast_succ, abs_of_nonpos (by linarith)]
    linarith
  · rw [(div_eq_half_iff positive).mpr (by omega)]
    exact .half whole

/-! ### Scales and bits -/

/-- The power of two that a number is a multiple of, to the precision of a double. -/
structure IsScale (q : ℚ) (exponent : ℤ) : Prop where
  finest : -1074 ≤ exponent
  below : q < 2 ^ (exponent + 53)
  normal : exponent = -1074 ∨ 2 ^ (exponent + 52) ≤ q

/-- The bits of the magnitude of the double nearest to a number. A significand that is rounded up to
`2 ^ 53` carries into the exponent, and past the greatest double the bits are those of infinity. -/
def NearestBits (q : ℚ) (bits : ℕ) : Prop :=
  ∃ exponent whole, IsScale q exponent ∧ IsNearest (q / 2 ^ exponent) whole ∧
    bits = min ((exponent + 1074).toNat * twoTo 52 + whole) infinityBits

theorem IsScale.mono {q r : ℚ} {d e : ℤ} (first : IsScale q d) (second : IsScale r e)
    (le : q ≤ r) : d ≤ e := by
  by_contra crossed
  rcases first.normal with finest | normal
  · exact crossed (finest ▸ second.finest)
  · have less : (2 : ℚ) ^ (d + 52) < 2 ^ (e + 53) := (normal.trans le).trans_lt second.below
    have order := (zpow_lt_zpow_iff_right₀ one_lt_two).mp less
    omega

theorem IsScale.unique {q : ℚ} {d e : ℤ} (first : IsScale q d) (second : IsScale q e) : d = e :=
  le_antisymm (first.mono second le_rfl) (second.mono first le_rfl)

theorem IsScale.double {q : ℚ} {exponent : ℤ} (scale : IsScale q exponent)
    (normal : 2 ^ (-1021 : ℤ) ≤ q) : IsScale (2 * q) (exponent + 1) := by
  have above : -1074 < exponent := by
    have less : (2 : ℚ) ^ (-1021 : ℤ) < 2 ^ (exponent + 53) := normal.trans_lt scale.below
    have order := (zpow_lt_zpow_iff_right₀ one_lt_two).mp less
    omega
  have low := scale.normal.resolve_left above.ne'
  refine ⟨by omega, ?_, .inr ?_⟩
  · rw [add_right_comm, zpow_add_one₀ two_ne_zero]
    linarith [scale.below]
  · rw [add_right_comm, zpow_add_one₀ two_ne_zero]
    linarith

theorem IsScale.whole_le {q : ℚ} {exponent : ℤ} {whole : ℕ} (scale : IsScale q exponent)
    (nearest : IsNearest (q / 2 ^ exponent) whole) : whole ≤ twoTo 53 := by
  apply nearest.mono (.self (twoTo 53))
  rw [cast_twoTo, div_le_iff₀ (by positivity), ← zpow_natCast, ← zpow_add₀ two_ne_zero, add_comm]
  exact scale.below.le

theorem IsScale.le_whole {q : ℚ} {exponent : ℤ} {whole : ℕ} (scale : IsScale q exponent)
    (nearest : IsNearest (q / 2 ^ exponent) whole) : exponent = -1074 ∨ twoTo 52 ≤ whole := by
  refine scale.normal.imp_right fun normal => ?_
  apply IsNearest.mono (.self (twoTo 52)) nearest
  rw [cast_twoTo, le_div_iff₀ (by positivity), ← zpow_natCast, ← zpow_add₀ two_ne_zero, add_comm]
  exact normal

/-- More bits belong to a greater number. -/
theorem NearestBits.mono {q r : ℚ} {first second : ℕ} (nearest : NearestBits q first)
    (nearest' : NearestBits r second) (le : q ≤ r) : first ≤ second := by
  obtain ⟨d, k, scale, whole, rfl⟩ := nearest
  obtain ⟨e, l, scale', whole', rfl⟩ := nearest'
  have shift : twoTo 53 = twoTo 52 * 2 := twoTo_succ 52
  have scales := scale.mono scale' le
  apply min_le_min_right
  rcases scales.eq_or_lt with rfl | less
  · have wholes : k ≤ l := whole.mono whole' (by gcongr)
    omega
  · have carried := scale.whole_le whole
    have finest := scale.finest
    have normal : twoTo 52 ≤ l := (scale'.le_whole whole').resolve_left (by omega)
    have next : (d + 1074).toNat + 1 ≤ (e + 1074).toNat := by omega
    calc (d + 1074).toNat * twoTo 52 + k
        ≤ (d + 1074).toNat * twoTo 52 + twoTo 52 * 2 := by omega
      _ = ((d + 1074).toNat + 1) * twoTo 52 + twoTo 52 := by ring
      _ ≤ (e + 1074).toNat * twoTo 52 + l := by gcongr

theorem NearestBits.unique {q : ℚ} {first second : ℕ} (nearest : NearestBits q first)
    (nearest' : NearestBits q second) : first = second :=
  Nat.le_antisymm (nearest.mono nearest' le_rfl) (nearest'.mono nearest le_rfl)

theorem NearestBits.le_infinityBits {q : ℚ} {bits : ℕ} (nearest : NearestBits q bits) :
    bits ≤ infinityBits := by
  obtain ⟨-, -, -, -, rfl⟩ := nearest
  exact min_le_right _ _

theorem nearestBits_zero : NearestBits 0 0 := by
  refine ⟨-1074, 0, ⟨le_rfl, by positivity, .inl rfl⟩, ?_, ?_⟩
  · rw [zero_div]
    exact_mod_cast IsNearest.self 0
  · rfl

theorem nearestBits_nearestMagnitudeBits (numerator : ℕ) {denominator : ℕ}
    (positive : 0 < denominator) :
    NearestBits ((numerator : ℚ) / denominator) (nearestMagnitudeBits numerator denominator) := by
  rcases Nat.eq_zero_or_pos numerator with rfl | numeratorPos
  · rw [Nat.cast_zero, zero_div]
    exact nearestBits_zero
  obtain ⟨low, high⟩ := binaryOrder_bounds numeratorPos positive
  rw [nearestMagnitudeBits, if_neg numeratorPos.ne']
  generalize binaryOrder numerator denominator = order at low high
  obtain ⟨exponent, exponentEq⟩ : ∃ exponent : ℤ, exponent = max (order - 52) (-1074) := ⟨_, rfl⟩
  simp only [← exponentEq]
  refine ⟨exponent, _, ⟨by omega, ?_, ?_⟩, ?_, rfl⟩
  · exact high.trans_le (zpow_le_zpow_right₀ one_le_two (by omega))
  · refine (lt_or_ge (order - 52) (-1074)).imp (fun subnormal => by omega) fun normal => ?_
    rw [show exponent + 52 = order by omega]
    exact low
  · have scaled : (numerator : ℚ) / denominator / 2 ^ exponent =
        (numerator * twoTo (-exponent).toNat : ℕ) / (denominator * twoTo exponent.toNat : ℕ) := by
      rw [Nat.cast_mul, Nat.cast_mul, ← twoTo_ratio, div_div_eq_mul_div, div_mul_eq_mul_div,
        div_div]
    rw [scaled]
    exact isNearest_nearestEven _ (Nat.mul_pos positive (twoTo_pos _))

theorem finest_power (x : Binary64) : -1074 ≤ power x := by
  rw [power]
  omega

theorem normal_significand (x : Binary64) : power x = -1074 ∨ twoTo 52 ≤ significand x := by
  rw [significand, power]
  by_cases subnormal : exponentField x = 0
  · rw [subnormal]
    exact .inl rfl
  · rw [if_neg subnormal]
    exact .inr (Nat.le_add_right _ _)

theorem nearestBits_magnitudeBits {x : Binary64} (finite : x.isFinite = true) :
    NearestBits |x.rational| x.magnitudeBits := by
  have scalePos : (0 : ℚ) < 2 ^ power x := by positivity
  rw [abs_rational]
  refine ⟨power x, significand x, ⟨finest_power x, ?_, ?_⟩, ?_, ?_⟩
  · rw [add_comm, zpow_add₀ two_ne_zero]
    gcongr
    have cast : ((significand x : ℕ) : ℚ) < (twoTo 53 : ℕ) := Nat.cast_lt.mpr (significand_lt x)
    rw [cast_twoTo] at cast
    exact_mod_cast cast
  · refine (normal_significand x).imp_right fun normal => ?_
    rw [add_comm, zpow_add₀ two_ne_zero]
    gcongr
    have cast : ((twoTo 52 : ℕ) : ℚ) ≤ (significand x : ℕ) := Nat.cast_le.mpr normal
    rw [cast_twoTo] at cast
    exact_mod_cast cast
  · rw [mul_div_cancel_right₀ _ scalePos.ne']
    exact .self _
  · rw [← magnitudeBits_eq_scaled]
    exact (Nat.min_eq_left ((isFinite_iff x).mp finite).le).symm

theorem nearestMagnitudeBits_of_eq {x : Binary64} (finite : x.isFinite = true)
    {numerator denominator : ℕ} (positive : 0 < denominator)
    (valueEq : (numerator : ℚ) / denominator = significand x * 2 ^ power x) :
    nearestMagnitudeBits numerator denominator = magnitudeBits x := by
  have rounded := nearestBits_nearestMagnitudeBits numerator positive
  rw [valueEq, ← abs_rational] at rounded
  exact rounded.unique (nearestBits_magnitudeBits finite)

/-- The bits of a significand on a scale belong to the double of that value, also if the significand
is `2 ^ 53` and has carried. -/
theorem abs_rational_of_magnitudeBits {x : Binary64} {exponent : ℤ} {whole : ℕ}
    (finest : -1074 ≤ exponent) (normal : exponent = -1074 ∨ twoTo 52 ≤ whole)
    (carried : whole ≤ twoTo 53)
    (bits : x.magnitudeBits = (exponent + 1074).toNat * twoTo 52 + whole) :
    |x.rational| = whole * 2 ^ exponent := by
  have shift : twoTo 52 = 4503599627370496 := rfl
  have top : twoTo 53 = 9007199254740992 := rfl
  rw [abs_rational, significand, power, exponentField_eq, fraction_eq, bits]
  rw [shift] at normal ⊢
  rw [top] at carried
  generalize scaleEq : (exponent + 1074).toNat = scale
  rcases lt_or_ge whole 4503599627370496 with small | large
  · -- On the finest scale the fraction is the significand.
    obtain rfl : exponent = -1074 := normal.resolve_right (by omega)
    obtain rfl : 0 = scale := scaleEq
    have field : (0 * 4503599627370496 + whole) / 4503599627370496 = 0 := by omega
    have low : (0 * 4503599627370496 + whole) % 4503599627370496 = whole := by omega
    rw [field, low, if_pos rfl]
    rfl
  rcases carried.eq_or_lt with rfl | fits
  · have field : (scale * 4503599627370496 + 9007199254740992) / 4503599627370496 =
        scale + 2 := by omega
    have low : (scale * 4503599627370496 + 9007199254740992) % 4503599627370496 = 0 := by omega
    have power : ((max (scale + 2) 1 : ℕ) : ℤ) - 1075 = exponent + 1 := by omega
    rw [field, low, if_neg (by omega), power, zpow_add₀ two_ne_zero]
    push_cast
    ring
  · have field : (scale * 4503599627370496 + whole) / 4503599627370496 = scale + 1 := by omega
    have low : 4503599627370496 + (scale * 4503599627370496 + whole) % 4503599627370496 =
        whole := by omega
    have power : ((max (scale + 1) 1 : ℕ) : ℤ) - 1075 = exponent := by omega
    rw [field, low, if_neg (by omega), power]

/-- The double is the one nearest to the number, or the infinity beyond the greatest. A zero may
have either sign. -/
structure RoundsTo (x : Binary64) (q : ℚ) : Prop where
  nearest : NearestBits |q| x.magnitudeBits
  negative : x.isNegative = true → q ≤ 0
  positive : x.isNegative = false → 0 ≤ q

theorem roundsTo_rational {x : Binary64} (finite : x.isFinite = true) : RoundsTo x x.rational where
  nearest := nearestBits_magnitudeBits finite
  negative isNegative := by
    rw [rational, isNegative, if_pos rfl]
    exact neg_nonpos.mpr (by positivity)
  positive isPositive := by
    rw [rational, isPositive, if_neg Bool.false_ne_true]
    positivity

theorem roundsTo_ofRatio (numerator : ℕ) {denominator : ℕ} (positive : 0 < denominator) :
    RoundsTo (ofRatio false numerator denominator) ((numerator : ℚ) / denominator) := by
  have nonneg : (0 : ℚ) ≤ (numerator : ℚ) / denominator := by positivity
  have nearest := nearestBits_nearestMagnitudeBits numerator positive
  have fits : nearestMagnitudeBits numerator denominator < twoTo 63 :=
    nearest.le_infinityBits.trans_lt (by decide)
  refine ⟨?_, fun isNegative => ?_, fun _ => nonneg⟩
  · rw [ofRatio, magnitudeBits_ofMagnitudeBits false fits, abs_of_nonneg nonneg]
    exact nearest
  · rw [ofRatio, isNegative_ofMagnitudeBits false fits] at isNegative
    cases isNegative

theorem rational_zero : zero.rational = 0 := by
  rw [← abs_eq_zero, abs_rational, show significand zero = 0 from rfl, Nat.cast_zero, zero_mul]

namespace RoundsTo

variable {x y : Binary64} {q r : ℚ}

theorem not_isNaN (rounds : RoundsTo x q) : x.isNaN = false := by
  rw [← Bool.not_eq_true, isNaN_iff]
  exact Nat.not_lt.mpr rounds.nearest.le_infinityBits

theorem isFinite_of_abs_le (rounds : RoundsTo x q) (rounds' : RoundsTo y r) (le : |q| ≤ |r|)
    (finite : y.isFinite = true) : x.isFinite = true := by
  rw [isFinite_iff] at finite ⊢
  exact (rounds.nearest.mono rounds'.nearest le).trans_lt finite

theorem abs_rational_eq_of_magnitudeBits (same : x.magnitudeBits = y.magnitudeBits) :
    |x.rational| = |y.rational| := by
  rw [abs_rational, abs_rational, significand, significand, power, power, exponentField_eq,
    exponentField_eq, fraction_eq, fraction_eq, same]

theorem abs_rational_le (rounds : RoundsTo x q) (rounds' : RoundsTo y r) (le : |q| ≤ |r|)
    (finite : y.isFinite = true) : |x.rational| ≤ |y.rational| := by
  have finite' := rounds.isFinite_of_abs_le rounds' le finite
  have bits := rounds.nearest.mono rounds'.nearest le
  by_contra swapped
  have bits' := (nearestBits_magnitudeBits finite).mono (nearestBits_magnitudeBits finite')
    (not_le.mp swapped).le
  exact swapped (abs_rational_eq_of_magnitudeBits (bits.antisymm bits')).le

theorem neg (rounds : RoundsTo x q) : RoundsTo (-x) (-q) where
  nearest := by
    rw [abs_neg, magnitudeBits_neg]
    exact rounds.nearest
  negative isNegative := by
    rw [isNegative_neg, Bool.not_eq_true'] at isNegative
    exact neg_nonpos.mpr (rounds.positive isNegative)
  positive isPositive := by
    rw [isNegative_neg, Bool.not_eq_false'] at isPositive
    exact neg_nonneg.mpr (rounds.negative isPositive)

theorem rational_nonneg (rounds : RoundsTo x q) (nonneg : 0 ≤ q) (finite : x.isFinite = true) :
    0 ≤ x.rational := by
  cases sign : x.isNegative with
  | false => exact (roundsTo_rational finite).positive sign
  | true =>
    obtain rfl : q = 0 := (rounds.negative sign).antisymm nonneg
    have size := rounds.abs_rational_le (roundsTo_rational (x := zero) rfl)
      (by rw [rational_zero]) rfl
    rw [rational_zero, abs_zero, abs_nonpos_iff] at size
    exact size.ge

theorem rational_nonpos (rounds : RoundsTo x q) (nonpos : q ≤ 0) (finite : x.isFinite = true) :
    x.rational ≤ 0 := by
  have opposite :=
    rounds.neg.rational_nonneg (neg_nonneg.mpr nonpos) ((isFinite_neg x).trans finite)
  rw [rational_neg] at opposite
  exact neg_nonneg.mp opposite

theorem rational_eq (rounds : RoundsTo x y.rational) (finite : y.isFinite = true) :
    x.isFinite = true ∧ x.rational = y.rational := by
  have finite' := rounds.isFinite_of_abs_le (roundsTo_rational finite) le_rfl finite
  have bits := rounds.nearest.unique (nearestBits_magnitudeBits finite)
  have size := abs_rational_eq_of_magnitudeBits bits
  refine ⟨finite', ?_⟩
  rcases le_total 0 y.rational with nonneg | nonpos
  · rwa [abs_of_nonneg nonneg, abs_of_nonneg (rounds.rational_nonneg nonneg finite')] at size
  · rwa [abs_of_nonpos nonpos, abs_of_nonpos (rounds.rational_nonpos nonpos finite'),
      neg_inj] at size

theorem exists_rational_eq (rounds : RoundsTo x q) (nonneg : 0 ≤ q) (finite : x.isFinite = true) :
    ∃ exponent whole, IsScale q exponent ∧ IsNearest (q / 2 ^ exponent) whole ∧
      x.rational = whole * 2 ^ exponent := by
  obtain ⟨exponent, whole, scale, nearest, bits⟩ := rounds.nearest
  rw [abs_of_nonneg nonneg] at scale nearest
  refine ⟨exponent, whole, scale, nearest, ?_⟩
  have below := (isFinite_iff x).mp finite
  rw [← abs_of_nonneg (rounds.rational_nonneg nonneg finite)]
  exact abs_rational_of_magnitudeBits scale.finest (scale.le_whole nearest)
    (scale.whole_le nearest) (by omega)

/-- Above the subnormal doubles, twice a number is rounded to twice the double. -/
theorem rational_double (rounds : RoundsTo x q) (rounds' : RoundsTo y (2 * q))
    (normal : 2 ^ (-1021 : ℤ) ≤ q) (finite : y.isFinite = true) :
    y.rational = 2 * x.rational := by
  have positive : 0 < q := lt_of_lt_of_le (by positivity) normal
  have finite' : x.isFinite = true := by
    refine rounds.isFinite_of_abs_le rounds' ?_ finite
    rw [abs_of_pos positive, abs_of_pos (by linarith)]
    linarith
  obtain ⟨exponent, whole, scale, nearest, value⟩ := rounds.exists_rational_eq positive.le finite'
  obtain ⟨exponent', whole', scale', nearest', value'⟩ :=
    rounds'.exists_rational_eq (by linarith) finite
  obtain rfl : exponent' = exponent + 1 := scale'.unique (scale.double normal)
  rw [zpow_add_one₀ two_ne_zero, mul_comm 2 q, mul_div_mul_right _ _ two_ne_zero] at nearest'
  rw [value, value', nearest'.unique nearest, zpow_add_one₀ two_ne_zero]
  ring

end RoundsTo

end Tangency.Binary64
