/-
Doubles as the numbers that `Float` computes with.

A `Float` operation unpacks its operands into a sign, a whole significand and an exponent, and packs
the result again.  Packing loses nothing of a pattern but the payload of a NaN, so the number that a
finite double is unpacked into tells the double.  From this follows what division makes of a zero:
it stays a zero over a divisor that is finite and not a zero, and has no finite result over a zero.

The lemmas about packing come with the whole of the library, and with no smaller part of it.
-/

import Mathlib
import Tangency.Proofs.ExactValues
import Tangency.Scalar

namespace Tangency

namespace Binary64

open Float.Model (UnpackedFloat)
open Float.Model.UnpackedFloat

def pattern (x : Binary64) : BitVec Float.Model.Format.binary64.numBits := x.bits.toBitVec

def unpacked (x : Binary64) : UnpackedFloat := x.toFloat.toModel.unpack

theorem eq_of_pattern {x y : Binary64} (same : x.pattern = y.pattern) : x = y :=
  congrArg (fun pattern => (⟨⟨pattern⟩⟩ : Binary64)) same

theorem toNat_unpackExponent (x : Binary64) :
    (unpackExponent x.pattern).toNat = x.exponentField := by
  simp [unpackExponent, pattern, exponentField, BitVec.extractLsb, Nat.shiftRight_eq_div_pow, twoTo]

theorem toNat_unpackMantissa (x : Binary64) : (unpackMantissa x.pattern).toNat = x.fraction := by
  simp [unpackMantissa, pattern, fraction, BitVec.extractLsb, twoTo]

theorem isNaNBits_pattern (x : Binary64) : isNaNBits x.pattern = x.isNaN := by
  have top : unpackExponent x.pattern = -1#_ ↔ x.exponentField = 2047 := by
    rw [← toNat_unpackExponent, ← BitVec.toNat_inj]
    rfl
  have bottom : unpackMantissa x.pattern = 0#_ ↔ x.fraction = 0 := by
    rw [← toNat_unpackMantissa, ← BitVec.toNat_inj]
    rfl
  rw [Bool.eq_iff_iff, isNaNBits, decide_eq_true_iff, top, ne_eq, bottom, isNaN_iff_fields]

theorem unpacked_of_isNaN {x : Binary64} (undefined : x.isNaN = true) :
    x.unpacked = .notANumber := by
  have packed : pack .binary64 (unpack .binary64 x.pattern) = packedNaN .binary64 := by
    rw [pack_unpack, isNaNBits_pattern, if_pos undefined]
  change unpack .binary64 (pack .binary64 (unpack .binary64 x.pattern)) = _
  rw [packed, unpack_packedNaN]

theorem pack_unpacked (x : Binary64) :
    pack .binary64 x.unpacked =
      if isNaNBits x.pattern then packedNaN .binary64 else x.pattern := by
  have packed : pack .binary64 x.unpacked = x.toFloat.toModel.toBits.toBitVec :=
    pack_unpack_of_valid x.toFloat.toModel.valid
  rw [packed]
  exact pack_unpack x.pattern

theorem pack_unpacked_of_isFinite {x : Binary64} (finite : x.isFinite = true) :
    pack .binary64 x.unpacked = x.pattern := by
  rw [pack_unpacked, if_neg]
  intro undefined
  have top : unpackExponent x.pattern = -1#11 := (of_decide_eq_true undefined).1
  have same : x.exponentField = 2047 := by
    rw [← toNat_unpackExponent, top]
    rfl
  exact of_decide_eq_true finite same

theorem scalar_zero_eq : (Scalar.zero : Binary64) = zero := by decide

theorem scalar_one_eq : (Scalar.one : Binary64) = one := by decide

def IsZero (x : Binary64) : Prop := x = zero ∨ x = negativeZero

theorem isZero_of_unpacked {x : Binary64} {sign : Sign} (unpackedEq : x.unpacked = .zero sign) :
    x.IsZero := by
  have packed := x.pack_unpacked
  rw [unpackedEq] at packed
  split at packed
  · cases sign <;> exact absurd packed (by decide)
  · cases sign with
    | positive => exact .inl (eq_of_pattern packed.symm)
    | negative => exact .inr (eq_of_pattern packed.symm)

theorem IsZero.unpacked {x : Binary64} (isZero : x.IsZero) : ∃ sign, x.unpacked = .zero sign := by
  rcases isZero with rfl | rfl
  · exact ⟨.positive, rfl⟩
  · exact ⟨.negative, rfl⟩

theorem isZero_of_magnitudeBits {x : Binary64} (nothing : x.magnitudeBits = 0) : x.IsZero := by
  have whole := x.ofMagnitudeBits_eq_self
  rw [nothing] at whole
  cases negative : x.isNegative with
  | false =>
    rw [negative] at whole
    exact .inl whole.symm
  | true =>
    rw [negative] at whole
    exact .inr whole.symm

theorem IsZero.neg {x : Binary64} (isZero : x.IsZero) : (-x).IsZero := by
  rcases isZero with rfl | rfl
  · exact .inr (by decide)
  · exact .inl (by decide)

theorem unpacked_of_isFinite {x : Binary64} (finite : x.isFinite = true) (nonzero : ¬x.IsZero) :
    ∃ sign significand exponent positive,
      x.unpacked = .finite sign significand exponent positive := by
  have packed := pack_unpacked_of_isFinite finite
  cases unpackedEq : x.unpacked with
  | notANumber =>
    rw [unpackedEq] at packed
    obtain rfl : x = ⟨⟨packedNaN .binary64⟩⟩ := eq_of_pattern packed.symm
    exact absurd finite (by decide)
  | infinity sign =>
    rw [unpackedEq] at packed
    obtain rfl : x = ⟨⟨packedInfinity .binary64 sign⟩⟩ := eq_of_pattern packed.symm
    cases sign <;> exact absurd finite (by decide)
  | zero sign => exact absurd (isZero_of_unpacked unpackedEq) nonzero
  | finite sign significand exponent positive => exact ⟨_, _, _, _, rfl⟩

theorem isEqual_zero_iff (x : Binary64) : isEqual x zero = true ↔ x.IsZero := by
  constructor
  · intro same
    change x.unpacked.beq (.zero .positive) = true at same
    obtain ⟨-, -, positive | ⟨-, impossible⟩ | ⟨negative, -⟩⟩ :=
      (beq_iff_ne_notANumber_and_eq _ _).mp same
    · exact isZero_of_unpacked positive
    · cases impossible
    · exact isZero_of_unpacked negative
  · rintro (rfl | rfl)
    · decide
    · decide

theorem IsZero.isEqual_one {x : Binary64} (isZero : x.IsZero) : isEqual x one = false := by
  rcases isZero with rfl | rfl
  · decide
  · decide

theorem isNaN_undefinedAt (operands : List Binary64) : (undefinedAt operands).isNaN = true := by
  unfold undefinedAt
  cases found : operands.find? isNaN with
  | none => decide
  | some operand => exact List.find?_some found

theorem isFinite_undefinedAt (operands : List Binary64) :
    (undefinedAt operands).isFinite = false := by
  have top := ((isNaN_iff_fields _).mp (isNaN_undefinedAt operands)).1
  exact decide_eq_false (not_not.mpr top)

theorem add_eq (x y : Binary64) :
    x + y = settled [x, y] ⟨.pack (x.unpacked.add .binary64 y.unpacked)⟩ := rfl

theorem sub_eq (x y : Binary64) :
    x - y = settled [x, y] ⟨.pack (x.unpacked.sub .binary64 y.unpacked)⟩ := rfl

theorem mul_eq (x y : Binary64) :
    x * y = settled [x, y] ⟨.pack (x.unpacked.mul .binary64 y.unpacked)⟩ := rfl

theorem div_eq (x y : Binary64) :
    x / y = settled [x, y] ⟨.pack (x.unpacked.div .binary64 y.unpacked)⟩ := rfl

theorem settled_zero (operands : List Binary64) (sign : Sign) :
    (settled operands ⟨.pack (.zero sign)⟩).IsZero := by
  have isNumber : Float.isNaN ⟨.pack (.zero sign)⟩ = false := by cases sign <;> decide
  rw [settled, isNumber, if_neg Bool.false_ne_true]
  cases sign with
  | positive => exact .inl rfl
  | negative => exact .inr rfl

theorem settled_notANumber (operands : List Binary64) :
    settled operands ⟨.pack .notANumber⟩ = undefinedAt operands :=
  if_pos (by decide)

theorem IsZero.div {x y : Binary64} (isZero : x.IsZero) (finite : y.isFinite = true)
    (nonzero : ¬y.IsZero) : (x / y).IsZero := by
  obtain ⟨sign, xEq⟩ := isZero.unpacked
  obtain ⟨otherSign, significand, exponent, positive, yEq⟩ := unpacked_of_isFinite finite nonzero
  rw [div_eq, xEq, yEq]
  exact settled_zero [x, y] (sign / otherSign)

theorem IsZero.isFinite_div {x y : Binary64} (isZero : x.IsZero) (noDivisor : y.IsZero) :
    (x / y).isFinite = false := by
  obtain ⟨sign, xEq⟩ := isZero.unpacked
  obtain ⟨otherSign, yEq⟩ := noDivisor.unpacked
  rw [div_eq, xEq, yEq]
  exact (congrArg isFinite (settled_notANumber [x, y])).trans (isFinite_undefinedAt [x, y])

theorem IsZero.isFinite {x : Binary64} (isZero : x.IsZero) : x.isFinite = true := by
  rcases isZero with rfl | rfl
  · decide
  · decide

end Binary64

end Tangency
