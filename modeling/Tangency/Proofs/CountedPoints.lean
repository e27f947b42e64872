/-
How many points a grid has when its steps are counted in words.

Twice the steps and one more need not fit a word, and the check of the settings asks for a step
only.  Where the number fits, the grid has that many points.  Where it does not, the number wraps
once, and what is left is at most the number of steps: the points end before the anchor, which is
the point with that index.
-/

import Tangency.Settings

namespace Tangency

universe u

/-- Counts in words, of which there are finitely many: a number that is none stands for its
remainder. -/
class Wraps (ν : Type) [Count ν] where
  size : Nat
  toNat_lt (n : ν) : Count.toNat n < size
  toNat_ofNat (n : Nat) : Count.toNat (Count.ofNat n : ν) = n % size
  toNat_add (m n : ν) : Count.toNat (m + n) = (Count.toNat m + Count.toNat n) % size
  toNat_mul (m n : ν) : Count.toNat (m * n) = Count.toNat m * Count.toNat n % size

instance : Wraps UInt64 where
  size := UInt64.size
  toNat_lt := UInt64.toNat_lt_size
  toNat_ofNat _ := UInt64.toNat_ofNat'
  toNat_add := UInt64.toNat_add
  toNat_mul := UInt64.toNat_mul

instance : Count UInt32 where
  ofNat := UInt32.ofNat
  toNat := UInt32.toNat

instance : Wraps UInt32 where
  size := UInt32.size
  toNat_lt := UInt32.toNat_lt_size
  toNat_ofNat _ := UInt32.toNat_ofNat'
  toNat_add := UInt32.toNat_add
  toNat_mul := UInt32.toNat_mul

namespace GridSettings

variable {α : Type u} {ν : Type} [Count ν]

section Counting

variable [Wraps ν] (settings : GridSettings α ν)

theorem toNat_pointCount_eq_mod :
    Count.toNat settings.pointCount =
      (2 * Count.toNat settings.stepsPerSide + 1) % Wraps.size ν := by
  rw [pointCount, Wraps.toNat_add, Wraps.toNat_mul, Wraps.toNat_ofNat, Wraps.toNat_ofNat,
    ← Nat.add_mod, Nat.add_mod, Nat.mod_mul_mod, ← Nat.add_mod]

theorem toNat_pointCount_eq_iff :
    Count.toNat settings.pointCount = 2 * Count.toNat settings.stepsPerSide + 1 ↔
      2 * Count.toNat settings.stepsPerSide + 1 < Wraps.size ν := by
  have positive : 0 < Wraps.size ν := Nat.zero_lt_of_lt (Wraps.toNat_lt settings.stepsPerSide)
  rw [toNat_pointCount_eq_mod, Nat.mod_eq_iff_lt (Nat.ne_of_gt positive)]

theorem toNat_pointCount_wrapped
    (exceeds : Wraps.size ν ≤ 2 * Count.toNat settings.stepsPerSide + 1) :
    Count.toNat settings.pointCount + Wraps.size ν =
      2 * Count.toNat settings.stepsPerSide + 1 := by
  have isWord := Wraps.toNat_lt settings.stepsPerSide
  rw [toNat_pointCount_eq_mod, Nat.mod_eq_sub_mod exceeds, Nat.mod_eq_of_lt (by omega)]
  omega

end Counting

variable [Scalar α]

theorem fault?_eq_none_of_steps {settings : GridSettings α ν} (accepted : settings.fault? = none)
    {steps : ν} (some : Count.toNat steps ≠ 0) :
    ({ settings with stepsPerSide := steps } : GridSettings α ν).fault? = none := by
  obtain ⟨least, scale, -⟩ := fault?_eq_none_iff.mp accepted
  exact fault?_eq_none_iff.mpr ⟨least, scale, some⟩

/-- Accepted settings are accepted with any other number of steps. The grid has one point more than
twice the steps exactly if this number fits a word; otherwise it has as many fewer as there are
words, and no point with the index of the anchor. -/
theorem pointCount_wraps [Wraps ν] {settings : GridSettings α ν} (accepted : settings.fault? = none)
    (anchor : α) :
    (∀ steps : ν, Count.toNat steps ≠ 0 →
      ({ settings with stepsPerSide := steps } : GridSettings α ν).fault? = none) ∧
    (settings.points anchor).length = Count.toNat settings.pointCount ∧
    (Count.toNat settings.pointCount = 2 * Count.toNat settings.stepsPerSide + 1 ↔
      2 * Count.toNat settings.stepsPerSide + 1 < Wraps.size ν) ∧
    (Wraps.size ν ≤ 2 * Count.toNat settings.stepsPerSide + 1 →
      Count.toNat settings.pointCount + Wraps.size ν =
          2 * Count.toNat settings.stepsPerSide + 1 ∧
        (settings.points anchor)[Count.toNat settings.stepsPerSide]? = none) := by
  refine ⟨fun steps some => fault?_eq_none_of_steps accepted some,
    settings.length_points anchor, settings.toNat_pointCount_eq_iff, fun exceeds => ?_⟩
  have wrapped := settings.toNat_pointCount_wrapped exceeds
  have isWord := Wraps.toNat_lt settings.stepsPerSide
  refine ⟨wrapped, List.getElem?_eq_none ?_⟩
  rw [length_points]
  omega

def standardWith (steps : ν) : GridSettings Binary64 ν :=
  ⟨standard.minHalfWidth, standard.widthScale, steps⟩

/-- The greatest number of steps whose points can be counted, in words of either length. -/
theorem pointCount_wraps_greatestCount :
    (standardWith (0x7FFFFFFFFFFFFFFF : UInt64)).fault? = none ∧
      (standardWith (0x7FFFFFFF : UInt32)).fault? = none ∧
      Count.toNat (standardWith (0x7FFFFFFFFFFFFFFF : UInt64)).pointCount = 0xFFFFFFFFFFFFFFFF ∧
      Count.toNat (standardWith (0x7FFFFFFF : UInt32)).pointCount = 0xFFFFFFFF := by
  have accepted : (standardWith (0x7FFFFFFFFFFFFFFF : UInt64)).fault? = none := by decide +kernel
  have acceptedShort : (standardWith (0x7FFFFFFF : UInt32)).fault? = none := by decide +kernel
  exact ⟨accepted, acceptedShort,
    (pointCount_wraps accepted .zero).2.2.1.mpr (by decide),
    (pointCount_wraps acceptedShort .zero).2.2.1.mpr (by decide)⟩

/-- One step more is accepted as well, and leaves a single point. -/
theorem pointCount_overflows :
    ((standardWith (0x8000000000000000 : UInt64)).fault? = none ∧
      ((standardWith (0x8000000000000000 : UInt64)).points .zero).length = 1) ∧
    ((standardWith (0x80000000 : UInt32)).fault? = none ∧
      ((standardWith (0x80000000 : UInt32)).points .zero).length = 1) := by
  decide +kernel

end GridSettings

end Tangency
