/-
Settings of a calculation. The grid reaches a half width to either side of the
anchor, in a number of steps; the flat tolerance decides what counts as a slope of
zero. Settings may hold anything and are checked before use, in a fixed order.
Steps are counted in machine words, so the number of points wraps like one; a grid
over exact numbers may count without a bound.
-/

import Tangency.Failure

namespace Tangency

/-- What steps and points are counted in. -/
class Count (ν : Type) extends Add ν, Mul ν where
  ofNat : Nat → ν
  toNat : ν → Nat

/-- A word, whose arithmetic wraps. -/
instance : Count UInt64 where
  ofNat := UInt64.ofNat
  toNat := UInt64.toNat

instance : Count Nat where
  ofNat n := n
  toNat n := n

structure GridSettings (α : Type u) (ν : Type := UInt64) where
  /-- The grid reaches at least this far to either side. -/
  minHalfWidth : α
  /-- It reaches this many times the size of the anchor if that is farther. -/
  widthScale : α
  /-- Steps between the anchor and either end. -/
  stepsPerSide : ν

structure Settings (α : Type u) where
  grid : GridSettings α
  /-- A slope or a curvature of smaller size counts as flat. -/
  flatTolerance : α

section Standard

variable {α : Type u} [Numeral α]

def GridSettings.standard : GridSettings α where
  minHalfWidth := Numeral.ofDecimal ⟨5, 0⟩
  widthScale := Numeral.ofDecimal ⟨15, -1⟩
  stepsPerSide := 50

def Settings.standard : Settings α where
  grid := GridSettings.standard
  flatTolerance := Numeral.ofDecimal ⟨1, -4⟩

end Standard

variable {α : Type u} [Scalar α] {ν : Type} [Count ν]

/-- The first setting out of its range: a half width has to be positive, a scale not negative and
both finite, and there has to be a step. -/
def GridSettings.fault? (settings : GridSettings α ν) : Option SettingsFault :=
  if !Scalar.isFinite settings.minHalfWidth || Scalar.isAtMost settings.minHalfWidth Scalar.zero then
    some .minHalfWidth
  else if !Scalar.isFinite settings.widthScale || Scalar.isLess settings.widthScale Scalar.zero then
    some .widthScale
  else if Count.toNat settings.stepsPerSide = 0 then some .stepsPerSide
  else none

theorem GridSettings.fault?_eq_none_iff {settings : GridSettings α ν} :
    settings.fault? = none ↔
      (Scalar.isFinite settings.minHalfWidth = true ∧
        Scalar.isAtMost settings.minHalfWidth Scalar.zero = false) ∧
      (Scalar.isFinite settings.widthScale = true ∧
        Scalar.isLess settings.widthScale Scalar.zero = false) ∧
      Count.toNat settings.stepsPerSide ≠ 0 := by
  unfold fault?
  cases Scalar.isFinite settings.minHalfWidth <;>
    cases Scalar.isAtMost settings.minHalfWidth Scalar.zero <;>
      cases Scalar.isFinite settings.widthScale <;>
        cases Scalar.isLess settings.widthScale Scalar.zero <;> simp

/-- The first setting out of its range; the tolerance, which comes last, has to be finite and not
negative. -/
def Settings.fault? (settings : Settings α) : Option SettingsFault :=
  match settings.grid.fault? with
  | some fault => some fault
  | none =>
    if !Scalar.isFinite settings.flatTolerance ||
        Scalar.isLess settings.flatTolerance Scalar.zero then
      some .flatTolerance
    else none

def Settings.check (settings : Settings α) : Except (Failure α) Unit :=
  match settings.fault? with
  | some fault => .error (.badSettings fault)
  | none => .ok ()

namespace GridSettings

def halfWidth (settings : GridSettings α ν) (anchor : α) : α :=
  Scalar.larger settings.minHalfWidth (Scalar.abs anchor * settings.widthScale)

def pointCount (settings : GridSettings α ν) : ν :=
  Count.ofNat 2 * settings.stepsPerSide + Count.ofNat 1

/-- The point with the given index. It is computed from the index and not from its neighbour, so
that the ends and the middle are hit exactly. -/
def point (settings : GridSettings α ν) (anchor : α) (index : Nat) : α :=
  anchor + settings.halfWidth anchor *
    (Scalar.natural index / Scalar.natural (Count.toNat settings.stepsPerSide) - Scalar.one)

def points (settings : GridSettings α ν) (anchor : α) : List α :=
  (List.range (Count.toNat settings.pointCount)).map (settings.point anchor)

theorem length_points (settings : GridSettings α ν) (anchor : α) :
    (settings.points anchor).length = Count.toNat settings.pointCount := by
  simp [points]

omit [Scalar α] in
theorem toNat_pointCount {settings : GridSettings α}
    (fits : 2 * settings.stepsPerSide.toNat + 1 < UInt64.size) :
    Count.toNat settings.pointCount = 2 * Count.toNat settings.stepsPerSide + 1 := by
  have words : Count.toNat settings.pointCount =
      (2 * settings.stepsPerSide.toNat % UInt64.size + 1) % UInt64.size := by
    change (2 * settings.stepsPerSide + 1).toNat = _
    rw [UInt64.toNat_add, UInt64.toNat_mul]
    rfl
  rw [words, Nat.mod_eq_of_lt (Nat.lt_of_succ_lt fits), Nat.mod_eq_of_lt fits]
  rfl

end GridSettings

end Tangency
