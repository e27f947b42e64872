/-
The printed formulas are the sampled polynomials.

A formula is read piece by piece: the fixed texts, and the numbers between them.  The line comes
back with its slope and its intercept, whose sign stands apart, and the parabola with the
coefficients of the powers of the distance from the anchor.  With coefficients rounded to four
places, the polynomial that is read lies within half a unit of the fourth place for each
coefficient, times the power that the coefficient stands with.

Over doubles the numbers read are as close to the coefficients that were computed; what the
arithmetic loses before that is not the formula's.
-/

import Tangency.Proofs.EvenGrid
import Tangency.Proofs.FixedPlaces
import Tangency.Proofs.SampledCurves

namespace Tangency

universe u

/-- A slope before the variable, and an intercept behind its sign. -/
structure WrittenLine where
  slope : SignedDecimal
  intercept : SignedDecimal
  deriving DecidableEq

/-- Coefficients of the powers of the distance from an anchor. -/
structure WrittenParabola where
  value : SignedDecimal
  slope : SignedDecimal
  bend : SignedDecimal
  anchor : SignedDecimal
  deriving DecidableEq

def behind? (fixed : String) (text : List Char) : Option (List Char) :=
  text.dropPrefix? fixed.toList

def readMinus? : List Char → Option (Bool × List Char)
  | '+' :: rest => some (false, rest)
  | '-' :: rest => some (true, rest)
  | _ => none

def readDistance? (closing : String) (text : List Char) :
    Option (SignedDecimal × List Char) := do
  let opened ← behind? "·(x-" text
  let (anchor, behindAnchor) ← SignedDecimal.read? opened
  let rest ← behind? closing behindAnchor
  some (anchor, rest)

def WrittenLine.read? (formula : String) : Option WrittenLine := do
  let named ← behind? "L(x) = " formula.toList
  let (slope, behindSlope) ← SignedDecimal.read? named
  let signed ← behind? "x " behindSlope
  let (minus, behindSign) ← readMinus? signed
  let unsigned ← behind? " " behindSign
  let (size, rest) ← Decimal.read? unsigned
  if rest.isEmpty then some ⟨slope, minus, size⟩ else none

/-- Both distances have to be from the same anchor. -/
def WrittenParabola.read? (formula : String) : Option WrittenParabola := do
  let named ← behind? "P(x) = " formula.toList
  let (value, behindValue) ← SignedDecimal.read? named
  let linear ← behind? " + " behindValue
  let (slope, behindSlope) ← SignedDecimal.read? linear
  let (anchor, behindDistance) ← readDistance? ")" behindSlope
  let quadratic ← behind? " + " behindDistance
  let (bend, behindBend) ← SignedDecimal.read? quadratic
  let (again, rest) ← readDistance? ")²" behindBend
  if rest.isEmpty ∧ again = anchor then some ⟨value, slope, bend, anchor⟩ else none

section Points

variable {K : Type u} [Field K]

def WrittenLine.point (line : WrittenLine) (x : K) : K :=
  line.slope.amount K * x + line.intercept.amount K

def WrittenParabola.point (parabola : WrittenParabola) (x : K) : K :=
  parabola.value.amount K + parabola.slope.amount K * (x - parabola.anchor.amount K) +
    parabola.bend.amount K * (x - parabola.anchor.amount K) ^ 2

end Points

theorem behind?_append (fixed : String) (rest : List Char) :
    behind? fixed (fixed.toList ++ rest) = some rest :=
  List.dropPrefix?_append_of_beq rest (beq_self_eq_true _)

theorem endsNumber_append (fixed : String) {c : Char} (first : fixed.toList.head? = some c)
    (ends : c.isDigit = false ∧ c ≠ '.' ∧ c ≠ 'e' ∧ c ≠ 'E') (rest : List Char) :
    Decimal.EndsNumber (fixed.toList ++ rest) := by
  intro d isHead
  rw [List.head?_append, first] at isHead
  cases isHead
  exact ends

/-- A text that is read as a number in front of whatever does not go on with it. -/
def Spells (text : String) (number : SignedDecimal) : Prop :=
  ∀ {rest : List Char}, Decimal.EndsNumber rest →
    SignedDecimal.read? (text.toList ++ rest) = some (number, rest)

theorem exists_spells_of_isExact {K : Type u} [Field K] {text : String} {a : K}
    (exact : IsExact text.toList a) :
    ∃ number : SignedDecimal, Spells text number ∧ number.amount K = a := by
  obtain ⟨number, written, amountEq⟩ := exact
  obtain ⟨read, same, isRead⟩ := number.read?_written K
  exact ⟨read, fun ends => written ▸ isRead ends, same.trans amountEq⟩

theorem exists_spells_of_isRounded {K : Type u} [Field K] [LinearOrder K] {places : ℕ}
    {text : String} {a : K} (rounded : IsRounded places text.toList a) :
    ∃ number : SignedDecimal, Spells text number ∧
      |number.amount K - a| ≤ 1 / 2 / 10 ^ places := by
  obtain ⟨number, written, rounds⟩ := rounded
  obtain ⟨read, spells, same⟩ :=
    exists_spells_of_isExact (⟨number, written, rfl⟩ : IsExact text.toList (number.amount K))
  exact ⟨read, spells, same ▸ rounds.close⟩

theorem readDistance?_append {text : String} {anchor : SignedDecimal} (spells : Spells text anchor)
    {closing : String} (closes : closing.toList.head? = some ')') (rest : List Char) :
    readDistance? closing ("·(x-".toList ++ (text.toList ++ (closing.toList ++ rest))) =
      some (anchor, rest) := by
  have ends := endsNumber_append closing closes (by decide) rest
  simp only [readDistance?, behind?_append, spells ends, Option.bind_eq_bind, Option.bind_some]

namespace Jet

variable {α : Type u} [Scalar α] [Numeral α] {jet : Jet α}

theorem read?_lineFormula {slope : SignedDecimal} {size : Decimal}
    (slopeSpells : Spells (coefficientText jet.slope) slope)
    (sizeRead : Decimal.read? (coefficientText (Scalar.abs jet.intercept)).toList =
      some (size, [])) :
    WrittenLine.read? jet.lineFormula =
      some ⟨slope, !Scalar.isAtMost Scalar.zero jet.intercept, size⟩ := by
  have ends := endsNumber_append "x " rfl (by decide)
  have sign (rest : List Char) : readMinus? (jet.interceptSign.toList ++ rest) =
      some (!Scalar.isAtMost Scalar.zero jet.intercept, rest) := by
    rw [interceptSign]
    cases Scalar.isAtMost Scalar.zero jet.intercept <;> rfl
  simp only [WrittenLine.read?, lineFormula, String.toList_append, List.append_assoc,
    behind?_append, slopeSpells (ends _), sign, sizeRead, Option.bind_eq_bind, Option.bind_some,
    List.isEmpty_nil, if_true]

example : WrittenLine.read? "L(x) = -0.2500x - 1.3750" =
    some ⟨⟨true, ⟨2500, -4⟩⟩, true, ⟨13750, -4⟩⟩ := by
  decide +kernel

theorem read?_parabolaFormula {value slope bend anchor : SignedDecimal}
    (valueSpells : Spells (coefficientText jet.value) value)
    (slopeSpells : Spells (coefficientText jet.slope) slope)
    (bendSpells : Spells (coefficientText (jet.curvature / Scalar.two)) bend)
    (anchorSpells : Spells (anchorText jet.anchor) anchor) :
    WrittenParabola.read? jet.parabolaFormula = some ⟨value, slope, bend, anchor⟩ := by
  have sumEnds := endsNumber_append " + " rfl (by decide)
  have distanceEnds := endsNumber_append "·(x-" rfl (by decide)
  have first := readDistance?_append anchorSpells (rfl : ")".toList.head? = some ')')
  have second := readDistance?_append anchorSpells (rfl : ")²".toList.head? = some ')') []
  rw [List.append_nil] at second
  unfold WrittenParabola.read? parabolaFormula
  simp only [String.toList_append, List.append_assoc, behind?_append, valueSpells (sumEnds _),
    slopeSpells (distanceEnds _), bendSpells (distanceEnds _), first, second,
    Option.bind_eq_bind, Option.bind_some, List.isEmpty_nil, and_self, if_true]

example : WrittenParabola.read? "P(x) = 3.0000 + 9.0000·(x--1.5) + -6.0000·(x--1.5)²" =
    some ⟨⟨false, ⟨30000, -4⟩⟩, ⟨false, ⟨90000, -4⟩⟩, ⟨true, ⟨60000, -4⟩⟩, ⟨true, ⟨15, -1⟩⟩⟩ := by
  decide +kernel

section Rounded

variable {K : Type u} [Field K] [LinearOrder K]

theorem read?_parabolaFormula_of_isRounded {f₀ f₁ k x₀ : K}
    (value : IsRounded 4 (coefficientText jet.value).toList f₀)
    (slope : IsRounded 4 (coefficientText jet.slope).toList f₁)
    (bend : IsRounded 4 (coefficientText (jet.curvature / Scalar.two)).toList k)
    (anchor : IsExact (anchorText jet.anchor).toList x₀) :
    ∃ parabola, WrittenParabola.read? jet.parabolaFormula = some parabola ∧
      |parabola.value.amount K - f₀| ≤ 1 / 2 / 10 ^ 4 ∧
      |parabola.slope.amount K - f₁| ≤ 1 / 2 / 10 ^ 4 ∧
      |parabola.bend.amount K - k| ≤ 1 / 2 / 10 ^ 4 ∧ parabola.anchor.amount K = x₀ := by
  obtain ⟨_, valueSpells, valueClose⟩ := exists_spells_of_isRounded value
  obtain ⟨_, slopeSpells, slopeClose⟩ := exists_spells_of_isRounded slope
  obtain ⟨_, bendSpells, bendClose⟩ := exists_spells_of_isRounded bend
  obtain ⟨_, anchorSpells, amountEq⟩ := exists_spells_of_isExact anchor
  exact ⟨_, read?_parabolaFormula valueSpells slopeSpells bendSpells anchorSpells, valueClose,
    slopeClose, bendClose, amountEq⟩

theorem read?_lineFormula_of_isRounded [IsStrictOrderedRing K] {f₁ b : K}
    (slope : IsRounded 4 (coefficientText jet.slope).toList f₁)
    (size : IsRounded 4 (coefficientText (Scalar.abs jet.intercept)).toList |b|)
    (sign : Scalar.isAtMost Scalar.zero jet.intercept = decide (0 ≤ b)) :
    ∃ line, WrittenLine.read? jet.lineFormula = some line ∧
      |line.slope.amount K - f₁| ≤ 1 / 2 / 10 ^ 4 ∧
      |line.intercept.amount K - b| ≤ 1 / 2 / 10 ^ 4 := by
  obtain ⟨read, slopeSpells, slopeClose⟩ := exists_spells_of_isRounded slope
  obtain ⟨number, written, rounds⟩ := size
  obtain ⟨unsigned, sizeClose⟩ := rounds.written_of_nonneg (abs_nonneg b)
  obtain ⟨readSize, amountEq, sizeRead⟩ := number.size.read?_positional K
  have noRest : Decimal.EndsNumber [] := nofun
  have whole := sizeRead noRest
  rw [List.append_nil, ← unsigned, ← written] at whole
  refine ⟨_, read?_lineFormula slopeSpells whole, slopeClose, ?_⟩
  rw [SignedDecimal.amount, sign, amountEq]
  by_cases nonneg : 0 ≤ b
  · rw [decide_eq_true nonneg, Bool.not_true, if_neg Bool.false_ne_true]
    rwa [abs_of_nonneg nonneg] at sizeClose
  · rw [abs_of_neg (not_le.mp nonneg), sub_neg_eq_add] at sizeClose
    rwa [decide_eq_false nonneg, Bool.not_false, if_pos rfl, neg_sub_left, abs_neg, add_comm]

end Rounded

section Doubles

open Binary64

variable {jet : Jet Binary64}

/-- Over doubles nothing has to be assumed about the texts of the coefficients. -/
theorem read?_lineFormula_of_isFinite (slopeFinite : jet.slope.isFinite = true)
    (interceptFinite : jet.intercept.isFinite = true) :
    ∃ line, WrittenLine.read? jet.lineFormula = some line ∧
      |line.slope.amount ℚ - jet.slope.rational| ≤ 1 / 2 / 10 ^ 4 ∧
      |line.intercept.amount ℚ - jet.intercept.rational| ≤ 1 / 2 / 10 ^ 4 := by
  have size : IsRounded 4 (coefficientText (Scalar.abs jet.intercept)).toList
      |jet.intercept.rational| := by
    rw [← rational_abs]
    exact isRounded_coefficientText ((isFinite_abs _).trans interceptFinite)
  have sign : Scalar.isAtMost Scalar.zero jet.intercept = decide (0 ≤ jet.intercept.rational) := by
    have atMost := isAtMost_iff (by decide : (zero : Binary64).isFinite = true) interceptFinite
    rw [rational_zero] at atMost
    rw [scalar_zero_eq, Bool.eq_iff_iff, atMost, decide_eq_true_eq]
  exact read?_lineFormula_of_isRounded (isRounded_coefficientText slopeFinite) size sign

theorem read?_parabolaFormula_of_isFinite (valueFinite : jet.value.isFinite = true)
    (slopeFinite : jet.slope.isFinite = true)
    (bendFinite : (jet.curvature / Scalar.two).isFinite = true)
    (anchorFinite : jet.anchor.isFinite = true) :
    ∃ parabola, WrittenParabola.read? jet.parabolaFormula = some parabola ∧
      |parabola.value.amount ℚ - jet.value.rational| ≤ 1 / 2 / 10 ^ 4 ∧
      |parabola.slope.amount ℚ - jet.slope.rational| ≤ 1 / 2 / 10 ^ 4 ∧
      |parabola.bend.amount ℚ - (jet.curvature / Scalar.two).rational| ≤ 1 / 2 / 10 ^ 4 ∧
      parabola.anchor.amount ℚ = jet.anchor.shortestAnchor.amount ℚ :=
  read?_parabolaFormula_of_isRounded (isRounded_coefficientText valueFinite)
    (isRounded_coefficientText slopeFinite) (isRounded_coefficientText bendFinite)
    (isExact_anchorText anchorFinite)

end Doubles

end Jet

section Distance

variable {K : Type u} [Field K] [LinearOrder K] [IsStrictOrderedRing K]

theorem half_unit_eq : (1 / 2 / 10 ^ 4 : K) = 0.00005 := by norm_num

theorem abs_line_sub_le {v s f₀ f₁ ε : K} (value : |v - f₀| ≤ ε) (slope : |s - f₁| ≤ ε) (d : K) :
    |(v + s * d) - (f₀ + f₁ * d)| ≤ ε * (1 + |d|) :=
  calc |(v + s * d) - (f₀ + f₁ * d)| = |(v - f₀) + (s - f₁) * d| := by congr 1; ring
    _ ≤ |v - f₀| + |s - f₁| * |d| := (abs_add_le _ _).trans_eq (by rw [abs_mul])
    _ ≤ ε + ε * |d| := by gcongr
    _ = ε * (1 + |d|) := by ring

theorem abs_parabola_sub_le {v s c f₀ f₁ k ε : K} (value : |v - f₀| ≤ ε) (slope : |s - f₁| ≤ ε)
    (bend : |c - k| ≤ ε) (d : K) :
    |(v + s * d + c * d ^ 2) - (f₀ + f₁ * d + k * d ^ 2)| ≤ ε * (1 + |d| + d ^ 2) :=
  calc |(v + s * d + c * d ^ 2) - (f₀ + f₁ * d + k * d ^ 2)|
      = |((v + s * d) - (f₀ + f₁ * d)) + (c - k) * d ^ 2| := by congr 1; ring
    _ ≤ |(v + s * d) - (f₀ + f₁ * d)| + |c - k| * d ^ 2 :=
      (abs_add_le _ _).trans_eq (by rw [abs_mul, abs_of_nonneg (sq_nonneg d)])
    _ ≤ ε * (1 + |d|) + ε * d ^ 2 :=
      add_le_add (abs_line_sub_le value slope d) (mul_le_mul_of_nonneg_right bend (sq_nonneg d))
    _ = ε * (1 + |d| + d ^ 2) := by ring

end Distance

def Jet.known {K : Type} (f₀ f₁ f₂ x₀ : K) : Jet (Exact K) :=
  ⟨.known f₀, .known f₁, .known f₂, .known x₀⟩

section Exact

variable {K : Type} [Field K] [DecidableEq K] [ExactMeaning K]

theorem withoutSignedZero_known (a : K) : withoutSignedZero (Exact.known a) = .known a := by
  rw [withoutSignedZero, Exact.zero_eq, Exact.isEqual_known]
  by_cases nothing : a = 0
  · rw [decide_eq_true nothing, if_pos rfl, nothing]
  · rw [decide_eq_false nothing, if_neg Bool.false_ne_true]

variable [LinearOrder K] [Numeral (Exact K)]

theorem isRounded_coefficientText_known [RoundsPlaces K] (a : K) :
    IsRounded 4 (coefficientText (Exact.known a)).toList a := by
  rw [coefficientText, withoutSignedZero_known, String.toList_ofList]
  exact RoundsPlaces.isRounded_textAtPlaces 4 a

variable [IsStrictOrderedRing K] [RoundsPlaces K] (f₀ f₁ f₂ : K) {x₀ : K}

namespace Jet

theorem parabolaFormula_follows_parabola
    (anchorFull : IsExact (Numeral.text (Exact.known x₀)) x₀) :
    ∃ parabola, WrittenParabola.read? (known f₀ f₁ f₂ x₀).parabolaFormula = some parabola ∧
      ∀ x, ∃ y, (known f₀ f₁ f₂ x₀).parabola (.known x) = .known y ∧
        |parabola.point x - y| ≤ 0.00005 * (1 + |x - x₀| + (x - x₀) ^ 2) := by
  have valueText : IsRounded 4 (coefficientText (known f₀ f₁ f₂ x₀).value).toList f₀ :=
    isRounded_coefficientText_known f₀
  have slopeText : IsRounded 4 (coefficientText (known f₀ f₁ f₂ x₀).slope).toList f₁ :=
    isRounded_coefficientText_known f₁
  have bendText : IsRounded 4
      (coefficientText ((known f₀ f₁ f₂ x₀).curvature / Scalar.two)).toList (f₂ / 2) := by
    rw [known, Exact.known_div_two]
    exact isRounded_coefficientText_known _
  have fullText : IsExact (anchorText (known f₀ f₁ f₂ x₀).anchor).toList x₀ := by
    rwa [known, anchorText, withoutSignedZero_known, String.toList_ofList]
  obtain ⟨parabola, read, valueClose, slopeClose, bendClose, anchorEq⟩ :=
    read?_parabolaFormula_of_isRounded valueText slopeText bendText fullText
  rw [half_unit_eq] at valueClose slopeClose bendClose
  refine ⟨parabola, read, fun x => ⟨f₀ + f₁ * (x - x₀) + f₂ / 2 * (x - x₀) ^ 2, ?_, ?_⟩⟩
  · rw [known, parabola_known, mul_assoc (f₂ / 2), ← sq]
  · rw [WrittenParabola.point, anchorEq]
    exact abs_parabola_sub_le valueClose slopeClose bendClose (x - x₀)

theorem lineFormula_follows_line [LawfulOrder K] (x₀ : K) :
    ∃ line, WrittenLine.read? (known f₀ f₁ f₂ x₀).lineFormula = some line ∧
      ∀ x, ∃ y, (known f₀ f₁ f₂ x₀).line (.known x) = .known y ∧
        |line.point x - y| ≤ 0.00005 * (|x| + 1) := by
  have intercept : (known f₀ f₁ f₂ x₀).intercept = .known (f₀ - f₁ * x₀) := rfl
  have sign : Scalar.isAtMost Scalar.zero (known f₀ f₁ f₂ x₀).intercept =
      decide (0 ≤ f₀ - f₁ * x₀) := by
    rw [Exact.zero_eq, intercept, isAtMost_known]
  have slopeText : IsRounded 4 (coefficientText (known f₀ f₁ f₂ x₀).slope).toList f₁ :=
    isRounded_coefficientText_known f₁
  have sizeText : IsRounded 4
      (coefficientText (Scalar.abs (known f₀ f₁ f₂ x₀).intercept)).toList |f₀ - f₁ * x₀| := by
    have size : Scalar.abs (known f₀ f₁ f₂ x₀).intercept = .known |f₀ - f₁ * x₀| := by
      rw [intercept]
      exact LawfulOrder.abs_eq _
    rw [size]
    exact isRounded_coefficientText_known _
  obtain ⟨line, read, slopeClose, interceptClose⟩ :=
    read?_lineFormula_of_isRounded slopeText sizeText sign
  rw [half_unit_eq] at slopeClose interceptClose
  refine ⟨line, read, fun x => ⟨f₀ + f₁ * (x - x₀), rfl, ?_⟩⟩
  calc |line.point x - (f₀ + f₁ * (x - x₀))|
      = |(line.intercept.amount K + line.slope.amount K * x) - ((f₀ - f₁ * x₀) + f₁ * x)| := by
        rw [WrittenLine.point]
        congr 1
        ring
    _ ≤ 0.00005 * (1 + |x|) := abs_line_sub_le interceptClose slopeClose x
    _ = 0.00005 * (|x| + 1) := by rw [add_comm 1]

end Jet

end Exact

noncomputable def realAtPlaces (places : ℕ) (a : ℝ) : SignedDecimal :=
  ⟨decide (a < 0), ⟨⌊|a| * ((10 : ℕ) : ℝ) ^ places + ((2 : ℕ) : ℝ)⁻¹⌋₊, -places⟩⟩

def FullAt (a : ℝ) (places : ℕ) : Prop := ∃ whole : ℕ, |a| * ((10 : ℕ) : ℝ) ^ places = whole

open Classical in
/-- The fewest places that are enough for a real number. If no number of places is, there are as
many as a double may need. -/
noncomputable def placesOfReal (a : ℝ) : ℕ :=
  if full : ∃ places, FullAt a places then Nat.find full else 17

noncomputable instance : Numeral (Exact ℝ) where
  isNegative
    | .known a => decide (a < 0)
    | .undefined => false
  text
    | .known a => (realAtPlaces (placesOfReal a) a).written
    | .undefined => ['N', 'a', 'N']
  textAtPlaces places
    | .known a => (realAtPlaces places a).written
    | .undefined => ['N', 'a', 'N']
  ofDecimal value := .known (value.amount ℝ)
  pi := .known Real.pi
  euler := .known (Real.exp 1)

instance : RoundsPlaces ℝ where
  isRounded_textAtPlaces places a := by
    refine ⟨realAtPlaces places a, rfl, SignedDecimal.rounds_of_nearest ?_⟩
    rw [Nat.cast_ofNat, Nat.cast_ofNat]
    have nonneg : 0 ≤ |a| * 10 ^ places + 2⁻¹ := by positivity
    have low := Nat.floor_le nonneg
    have high := Nat.lt_floor_add_one (|a| * 10 ^ places + 2⁻¹)
    rw [abs_le]
    constructor <;> linarith

theorem realAtPlaces_of_units {a : ℝ} {places whole : ℕ} (full : |a| * 10 ^ places = whole) :
    realAtPlaces places a = ⟨decide (a < 0), ⟨whole, -places⟩⟩ := by
  have floor : ⌊(whole : ℝ) + 2⁻¹⌋₊ = whole := by
    rw [Nat.floor_eq_iff (by positivity)]
    constructor <;> linarith
  rw [realAtPlaces, Nat.cast_ofNat, Nat.cast_ofNat, full, floor]

theorem fullAt_iff (a : ℝ) (places : ℕ) :
    FullAt a places ↔ ∃ whole : ℕ, |a| * 10 ^ places = whole := by
  rw [FullAt, Nat.cast_ofNat]

theorem isExact_text_real {a : ℝ} {places : ℕ} (full : FullAt a places) :
    IsExact (Numeral.text (Exact.known a)) a := by
  classical
  have exists_full : ∃ places, FullAt a places := ⟨places, full⟩
  have enough : FullAt a (placesOfReal a) := by
    rw [placesOfReal, dif_pos exists_full]
    exact Nat.find_spec exists_full
  obtain ⟨whole, scaled⟩ := (fullAt_iff a _).mp enough
  refine ⟨_, rfl, ?_⟩
  rw [realAtPlaces_of_units scaled]
  exact SignedDecimal.amount_of_units scaled

/-! ### The formulas -/

/-- What is read from the formula of the line is close to the line, and what is read from the
formula of the parabola is close to the parabola when the anchor is written in full. -/
theorem formulas_follow_polynomials {K : Type} [Field K] [LinearOrder K] [IsStrictOrderedRing K]
    [DecidableEq K] [ExactMeaning K] [LawfulOrder K] [Numeral (Exact K)] [RoundsPlaces K]
    (f₀ f₁ f₂ x₀ : K) :
    (∃ line, WrittenLine.read? (Jet.known f₀ f₁ f₂ x₀).lineFormula = some line ∧
      ∀ x, ∃ y, (Jet.known f₀ f₁ f₂ x₀).line (.known x) = .known y ∧
        |line.point x - y| ≤ 0.00005 * (|x| + 1)) ∧
    (IsExact (Numeral.text (Exact.known x₀)) x₀ →
      ∃ parabola, WrittenParabola.read? (Jet.known f₀ f₁ f₂ x₀).parabolaFormula = some parabola ∧
        ∀ x, ∃ y, (Jet.known f₀ f₁ f₂ x₀).parabola (.known x) = .known y ∧
          |parabola.point x - y| ≤ 0.00005 * (1 + |x - x₀| + (x - x₀) ^ 2)) :=
  ⟨Jet.lineFormula_follows_line f₀ f₁ f₂ x₀, Jet.parabolaFormula_follows_parabola f₀ f₁ f₂⟩

theorem coefficientText_real {a : ℝ} {whole : ℕ} (full : |a| * 10 ^ 4 = whole) :
    coefficientText (Exact.known a) =
      String.ofList (⟨decide (a < 0), ⟨whole, -4⟩⟩ : SignedDecimal).written := by
  rw [coefficientText, withoutSignedZero_known]
  exact congrArg (fun number => String.ofList (SignedDecimal.written number))
    (realAtPlaces_of_units full)

theorem coefficientText_quarter : coefficientText (Exact.known (-1 / 4 : ℝ)) = "-0.2500" := by
  have full : |(-1 / 4 : ℝ)| * 10 ^ 4 = (2500 : ℕ) := by norm_num [abs_div]
  rw [coefficientText_real full, decide_eq_true (by norm_num)]
  decide

theorem fullAt_threeHalves : FullAt (-3 / 2) 1 :=
  (fullAt_iff _ _).mpr ⟨15, by norm_num [abs_div]⟩

theorem placesOfReal_threeHalves : placesOfReal (-3 / 2) = 1 := by
  classical
  rw [placesOfReal, dif_pos ⟨1, fullAt_threeHalves⟩, Nat.find_eq_iff]
  refine ⟨fullAt_threeHalves, fun fewer below => ?_⟩
  rw [Nat.lt_one_iff.mp below, fullAt_iff]
  rintro ⟨whole, same⟩
  have size : |(-3 / 2 : ℝ)| = 3 / 2 := by norm_num [abs_div]
  rw [size, pow_zero, mul_one] at same
  have doubled : (3 : ℝ) = (2 * whole : ℕ) := by
    push_cast
    linarith
  have odd : 3 = 2 * whole := by exact_mod_cast doubled
  omega

theorem anchorText_threeHalves : anchorText (Exact.known (-3 / 2 : ℝ)) = "-1.5" := by
  have full : |(-3 / 2 : ℝ)| * 10 ^ 1 = (15 : ℕ) := by norm_num [abs_div]
  have text : Numeral.text (Exact.known (-3 / 2 : ℝ)) = ['-', '1', '.', '5'] := by
    change (realAtPlaces (placesOfReal (-3 / 2)) (-3 / 2)).written = _
    rw [placesOfReal_threeHalves, realAtPlaces_of_units full, decide_eq_true (by norm_num)]
    decide
  rw [anchorText, withoutSignedZero_known, text]

theorem lineFormula_belowZero :
    (Jet.known (-1 : ℝ) (-1 / 4) (-3) (-3 / 2)).lineFormula = "L(x) = -0.2500x - 1.3750" := by
  have intercept : (Jet.known (-1 : ℝ) (-1 / 4) (-3) (-3 / 2)).intercept = .known (-11 / 8) := by
    change Exact.known ((-1 : ℝ) - -1 / 4 * (-3 / 2)) = _
    norm_num
  have sign : (Jet.known (-1 : ℝ) (-1 / 4) (-3) (-3 / 2)).interceptSign = "-" := by
    rw [Jet.interceptSign, intercept, Exact.zero_eq, isAtMost_known, decide_eq_false (by norm_num),
      if_neg Bool.false_ne_true]
  have sizeText : coefficientText (Scalar.abs (Exact.known (-11 / 8 : ℝ))) = "1.3750" := by
    have size : Scalar.abs (Exact.known (-11 / 8 : ℝ)) = .known (11 / 8) := by
      change Exact.known |(-11 / 8 : ℝ)| = _
      norm_num [abs_div]
    have full : |(11 / 8 : ℝ)| * 10 ^ 4 = (13750 : ℕ) := by norm_num [abs_div]
    rw [size, coefficientText_real full, decide_eq_false (by norm_num)]
    decide
  rw [Jet.lineFormula, sign, intercept, sizeText, Jet.known, coefficientText_quarter]
  decide

theorem parabolaFormula_belowZero :
    (Jet.known (-1 : ℝ) (-1 / 4) (-3) (-3 / 2)).parabolaFormula =
      "P(x) = -1.0000 + -0.2500·(x--1.5) + -1.5000·(x--1.5)²" := by
  have valueText : coefficientText (Exact.known (-1 : ℝ)) = "-1.0000" := by
    have full : |(-1 : ℝ)| * 10 ^ 4 = (10000 : ℕ) := by norm_num
    rw [coefficientText_real full, decide_eq_true (by norm_num)]
    decide
  have bendText : coefficientText (Exact.known (-3 : ℝ) / Scalar.two) = "-1.5000" := by
    have full : |(-3 / 2 : ℝ)| * 10 ^ 4 = (15000 : ℕ) := by norm_num [abs_div]
    rw [Exact.known_div_two, coefficientText_real full, decide_eq_true (by norm_num)]
    decide
  unfold Jet.parabolaFormula
  rw [Jet.known, valueText, coefficientText_quarter, anchorText_threeHalves, bendText]
  decide

/-- All numbers are below zero, so the anchor and each coefficient of the parabola have a minus of
their own, and the intercept has its minus apart. -/
theorem formulas_follow_polynomials_belowZero :
    IsExact (Numeral.text (Exact.known (-3 / 2 : ℝ))) (-3 / 2 : ℝ) ∧
    (∃ line, WrittenLine.read? "L(x) = -0.2500x - 1.3750" = some line ∧
      ∀ x, ∃ y, (Jet.known (-1 : ℝ) (-1 / 4) (-3) (-3 / 2)).line (.known x) = .known y ∧
        |line.point x - y| ≤ 0.00005 * (|x| + 1)) ∧
    ∃ parabola, WrittenParabola.read? "P(x) = -1.0000 + -0.2500·(x--1.5) + -1.5000·(x--1.5)²" =
        some parabola ∧
      ∀ x, ∃ y, (Jet.known (-1 : ℝ) (-1 / 4) (-3) (-3 / 2)).parabola (.known x) = .known y ∧
        |parabola.point x - y| ≤ 0.00005 * (1 + |x - -3 / 2| + (x - -3 / 2) ^ 2) := by
  have full : IsExact (Numeral.text (Exact.known (-3 / 2 : ℝ))) (-3 / 2 : ℝ) :=
    isExact_text_real fullAt_threeHalves
  have follows := formulas_follow_polynomials (-1 : ℝ) (-1 / 4) (-3) (-3 / 2)
  rw [← lineFormula_belowZero, ← parabolaFormula_belowZero]
  exact ⟨full, follows.1, follows.2 full⟩

end Tangency
