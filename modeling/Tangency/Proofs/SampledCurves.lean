/-
The samples of a curve over exact numbers.

The three series of a sampling lie over one grid.  The function has its own value at every point and
a gap where it has none; the line and the parabola have a value everywhere, and they differ by the
quadratic term of the jet alone.  The grid hits the anchor exactly with its middle point, and there
all three series meet.

The curve may have been used before the jet is taken and between the jet and the sampling.
-/

import Tangency.Proofs.CurveHistory
import Tangency.Proofs.DerivativeExtent
import Tangency.Proofs.EvenGrid
import Tangency.Proofs.HigherDerivatives

namespace Tangency

universe u

namespace Series

variable {α : Type u}

theorem ofLists_map (xs : List α) (f : α → α) :
    ofLists xs (xs.map f) = xs.map fun x => ⟨x, f x⟩ := by
  rw [ofLists, List.zipWith_map_right, List.zipWith_self]

theorem xs_map {ι : Type} (indices : List ι) (point : ι → SamplePoint α) :
    xs (indices.map point) = indices.map fun i => (point i).x := by
  rw [xs, List.map_map]
  rfl

theorem ys_map {ι : Type} (indices : List ι) (point : ι → SamplePoint α) :
    ys (indices.map point) = indices.map fun i => (point i).y := by
  rw [ys, List.map_map]
  rfl

end Series

variable {K : Type} [Field K] [DecidableEq K] [ExactMeaning K]

theorem Samples.orGap_eq (value : Exact K) : orGap value = value := by
  cases value <;> rfl

theorem Exact.isUndefined_eq (value : Exact K) : Scalar.isUndefined value = !value.isKnown := by
  cases value with
  | known value =>
    rw [Scalar.isUndefined, isEqual_known, decide_eq_true rfl]
    rfl
  | undefined => rfl

/-- The numbers in a jet, which are those of the tree and its derivatives. -/
structure Jet.TangentTo (jet : Jet (Exact K)) (tree : Expr (Exact K)) (x₀ f₀ f₁ f₂ : K) : Prop where
  jet_eq : jet = ⟨.known f₀, .known f₁, .known f₂, .known x₀⟩
  value_eq : tree.exactAt x₀ = .known f₀
  slope_eq : tree.derivative.exactAt x₀ = .known f₁
  curvature_eq : tree.derivative.derivative.exactAt x₀ = .known f₂

theorem Expr.finiteValue_eq_ok_iff {tree : Expr (Exact K)} {order : Order}
    {anchor value : Exact K} :
    tree.finiteValue order anchor = .ok value ↔
      (tree.ofOrder order).value id anchor = value ∧ ∃ number, value = .known number := by
  unfold finiteValue
  cases valueEq : (tree.ofOrder order).value id anchor with
  | known number =>
    rw [if_pos (show isUsable (Exact.known number) = true from rfl), Except.ok.injEq]
    exact ⟨fun same => ⟨same, number, same.symm⟩, fun found => found.1⟩
  | undefined =>
    rw [if_neg (show ¬isUsable (Exact.undefined : Exact K) = true from Bool.false_ne_true)]
    refine iff_of_false nofun ?_
    rintro ⟨same, number, rfl⟩
    cases same

theorem except_bind_eq_ok_iff {ε α β : Type} {first : Except ε α} {next : α → Except ε β} {b : β} :
    first >>= next = .ok b ↔ ∃ a, first = .ok a ∧ next a = .ok b := by
  cases first with
  | error failure =>
    refine iff_of_false nofun ?_
    rintro ⟨a, same, -⟩
    cases same
  | ok a =>
    constructor
    · intro found
      exact ⟨a, rfl, found⟩
    · rintro ⟨a', same, found⟩
      cases same
      exact found

theorem Expr.jetAt_eq_ok_iff {tree : Expr (Exact K)} {anchor : Exact K} {jet : Jet (Exact K)} :
    tree.jetAt anchor = .ok jet ↔
      ∃ x₀ f₀ f₁ f₂, anchor = .known x₀ ∧ jet.TangentTo tree x₀ f₀ f₁ f₂ := by
  unfold jetAt
  cases anchor with
  | undefined =>
    refine iff_of_false nofun ?_
    rintro ⟨x₀, f₀, f₁, f₂, same, -⟩
    cases same
  | known x₀ =>
    rw [if_pos (show Scalar.isFinite (Exact.known x₀) = true from rfl)]
    constructor
    · intro found
      obtain ⟨value, valueEq, found⟩ := except_bind_eq_ok_iff.mp found
      obtain ⟨slope, slopeEq, found⟩ := except_bind_eq_ok_iff.mp found
      obtain ⟨curvature, curvatureEq, found⟩ := except_bind_eq_ok_iff.mp found
      obtain ⟨ofValue, f₀, rfl⟩ := finiteValue_eq_ok_iff.mp valueEq
      obtain ⟨ofSlope, f₁, rfl⟩ := finiteValue_eq_ok_iff.mp slopeEq
      obtain ⟨ofCurvature, f₂, rfl⟩ := finiteValue_eq_ok_iff.mp curvatureEq
      exact ⟨x₀, f₀, f₁, f₂, rfl, (Except.ok.inj found).symm, ofValue, ofSlope, ofCurvature⟩
    · rintro ⟨x₁, f₀, f₁, f₂, same, tangent⟩
      cases same
      have value : tree.finiteValue .value (.known x₀) = .ok (.known f₀) :=
        finiteValue_eq_ok_iff.mpr ⟨tangent.value_eq, f₀, rfl⟩
      have slope : tree.finiteValue .slope (.known x₀) = .ok (.known f₁) :=
        finiteValue_eq_ok_iff.mpr ⟨tangent.slope_eq, f₁, rfl⟩
      have curvature : tree.finiteValue .curvature (.known x₀) = .ok (.known f₂) :=
        finiteValue_eq_ok_iff.mpr ⟨tangent.curvature_eq, f₂, rfl⟩
      rw [value, slope, curvature, tangent.jet_eq]
      rfl

theorem Exact.known_div_two [NeZero (2 : K)] (a : K) : known a / Scalar.two = known (a / 2) := by
  rw [two_eq]
  exact known_div_of_ne_zero _ two_ne_zero

theorem Jet.parabola_known [NeZero (2 : K)] (x₀ f₀ f₁ f₂ x : K) :
    (⟨.known f₀, .known f₁, .known f₂, .known x₀⟩ : Jet (Exact K)).parabola (.known x) =
      .known (f₀ + f₁ * (x - x₀) + f₂ / 2 * (x - x₀) * (x - x₀)) := by
  rw [parabola, Exact.known_div_two]
  rfl

/-! ### The three series -/

/-- The three series lie over the first points of a row, an odd number of them. The function has its
gaps where the tree has no value, the line is the one with the slope and the intercept, the parabola
leaves it by the quadratic term, and all three meet at the anchor in the middle. -/
structure Samples.TangentAt (samples : Samples (Exact K)) (tree : Expr (Exact K)) (steps : ℕ)
    (row : ℕ → K) (x₀ f₀ f₁ f₂ intercept : K) : Prop where
  function_xs : samples.function.xs = (List.range (2 * steps + 1)).map fun i => .known (row i)
  line_xs : samples.line.xs = (List.range (2 * steps + 1)).map fun i => .known (row i)
  parabola_xs : samples.parabola.xs = (List.range (2 * steps + 1)).map fun i => .known (row i)
  function_ys : samples.function.ys =
    (List.range (2 * steps + 1)).map fun i => tree.exactAt (row i)
  gapCount_eq : samples.function.gapCount =
    (List.range (2 * steps + 1)).countP fun i => !(tree.exactAt (row i)).isKnown
  line_ys : samples.line.ys =
    (List.range (2 * steps + 1)).map fun i => .known (f₁ * row i + intercept)
  parabola_ys : ∃ height : ℕ → K,
    samples.parabola.ys = (List.range (2 * steps + 1)).map (fun i => .known (height i)) ∧
      ∀ i, height i - (f₁ * row i + intercept) = f₂ / 2 * (row i - x₀) ^ 2
  function_middle : samples.function[steps]? = some ⟨.known x₀, .known f₀⟩
  line_middle : samples.line[steps]? = some ⟨.known x₀, .known f₀⟩
  parabola_middle : samples.parabola[steps]? = some ⟨.known x₀, .known f₀⟩

theorem Expr.samples_function (tree : Expr (Exact K)) (jet : Jet (Exact K))
    (settings : GridSettings (Exact K)) :
    (tree.samples jet settings).function =
      (settings.points jet.anchor).map fun x => ⟨x, tree.value id x⟩ := by
  have ungapped : (Samples.orGap ∘ tree.value id : Exact K → Exact K) = tree.value id :=
    funext fun x => Samples.orGap_eq _
  rw [samples, List.map_map, ungapped, Series.ofLists_map]

theorem Expr.samples_tangentAt [NeZero (2 : K)] {tree : Expr (Exact K)} {jet : Jet (Exact K)}
    {settings : GridSettings (Exact K)} {row : ℕ → K} {x₀ f₀ f₁ f₂ : K} {steps : ℕ}
    (tangent : jet.TangentTo tree x₀ f₀ f₁ f₂)
    (points : settings.points (.known x₀) =
      (List.range (2 * steps + 1)).map fun i => .known (row i))
    (middle : row steps = x₀) :
    (tree.samples jet settings).TangentAt tree steps row x₀ f₀ f₁ f₂ (f₀ - f₁ * x₀) := by
  have atAnchor : settings.points jet.anchor = settings.points (.known x₀) := by
    rw [tangent.jet_eq]
  have functionEq : (tree.samples jet settings).function =
      (List.range (2 * steps + 1)).map fun i => ⟨.known (row i), tree.exactAt (row i)⟩ := by
    rw [samples_function, atAnchor, points, List.map_map]
    rfl
  have lineEq : (tree.samples jet settings).line =
      (List.range (2 * steps + 1)).map fun i =>
        ⟨.known (row i), .known (f₀ + f₁ * (row i - x₀))⟩ := by
    change (settings.points jet.anchor).map _ = _
    rw [atAnchor, points, List.map_map, tangent.jet_eq]
    rfl
  have parabolaEq : (tree.samples jet settings).parabola =
      (List.range (2 * steps + 1)).map fun i => ⟨.known (row i),
        .known (f₀ + f₁ * (row i - x₀) + f₂ / 2 * (row i - x₀) * (row i - x₀))⟩ := by
    change (settings.points jet.anchor).map _ = _
    rw [atAnchor, points, List.map_map, tangent.jet_eq]
    exact List.map_congr_left fun i _ => congrArg _ (Jet.parabola_known x₀ f₀ f₁ f₂ (row i))
  have inside : steps < 2 * steps + 1 := by omega
  constructor
  case function_xs => rw [functionEq, Series.xs_map]
  case line_xs => rw [lineEq, Series.xs_map]
  case parabola_xs => rw [parabolaEq, Series.xs_map]
  case function_ys => rw [functionEq, Series.ys_map]
  case gapCount_eq =>
    rw [functionEq, Series.gapCount, List.countP_map]
    exact List.countP_congr fun i _ => by rw [Function.comp_apply, Exact.isUndefined_eq]
  case line_ys =>
    rw [lineEq, Series.ys_map]
    apply List.map_congr_left
    intro i _
    rw [Exact.known.injEq]
    ring
  case parabola_ys =>
    refine ⟨fun i => f₀ + f₁ * (row i - x₀) + f₂ / 2 * (row i - x₀) * (row i - x₀), ?_, ?_⟩
    · rw [parabolaEq, Series.ys_map]
    · intro i
      ring
  case function_middle =>
    rw [functionEq, List.getElem?_map, List.getElem?_range inside, Option.map_some, middle,
      tangent.value_eq]
  case line_middle =>
    rw [lineEq, List.getElem?_map, List.getElem?_range inside, Option.map_some, middle, sub_self,
      mul_zero, add_zero]
  case parabola_middle =>
    rw [parabolaEq, List.getElem?_map, List.getElem?_range inside, Option.map_some, middle,
      sub_self, mul_zero, mul_zero, add_zero, add_zero]

/-- A jet and a sampling around it, with any uses of the curve before and between. -/
theorem samples_tangentAt_of_jetAt {K : Type} [Field K] [LinearOrder K] [IsStrictOrderedRing K]
    [DecidableEq K] [ExactMeaning K] [LawfulOrder K] {tree : Expr (Exact K)}
    {curve : Curve (Exact K)} (prepared : Curve.ofExpr? tree = .ok curve)
    (earlier between : List (Use (Exact K))) {anchor : Exact K} {jet : Jet (Exact K)}
    (found : ((curve.afterAll earlier).jetAt anchor).1 = .ok jet)
    {settings : GridSettings (Exact K)} (accepted : settings.fault? = none)
    (fits : 2 * settings.stepsPerSide.toNat + 1 < 2 ^ 64) :
    ∃ x₀ f₀ f₁ f₂ intercept reach row,
      anchor = .known x₀ ∧ jet.TangentTo tree x₀ f₀ f₁ f₂ ∧ jet.intercept = .known intercept ∧
        settings.CoversEvenly x₀ reach row ∧
        ((((curve.afterAll earlier).jetAt anchor).2.afterAll between).samples jet
          settings).1.TangentAt tree settings.stepsPerSide.toNat row x₀ f₀ f₁ f₂ intercept := by
  have serves : curve.Serves tree := Curve.ofExpr?_serves prepared
  have step := (serves.afterAll_run earlier).jetAt_step anchor
  have sampled := ((step.2.afterAll_run between).samples_step jet settings).1
  rw [step.1] at found
  obtain ⟨x₀, f₀, f₁, f₂, rfl, tangent⟩ := Expr.jetAt_eq_ok_iff.mp found
  obtain ⟨least, scale, holds⟩ := GridSettings.exists_holds accepted
  have covers := holds.coversEvenly x₀ (GridSettings.toNat_pointCount fits)
  have intercept : jet.intercept = .known (f₀ - f₁ * x₀) := by
    rw [tangent.jet_eq]
    rfl
  refine ⟨x₀, f₀, f₁, f₂, _, _, _, rfl, tangent, intercept, covers, ?_⟩
  rw [sampled]
  exact Expr.samples_tangentAt tangent covers.points_eq covers.middle

noncomputable def logarithm : Expr (Exact ℝ) := .call .ln [.var]

theorem regularAt_logarithm : logarithm.RegularAt 1 := by
  have smooth : Elementary.SmoothAt .ln 1 := ⟨one_pos, nofun⟩
  exact (Denotes.call .var (Elementary.applyOne_known smooth.1) smooth).throughout

theorem derivative_logarithm : logarithm.derivative = .binary .div .one .var := by
  have notZero : (Expr.one : Expr (Exact ℝ)).isZero = false := by
    rw [Expr.one_eq, Expr.isZero_known, decide_eq_false one_ne_zero]
  change (if (Expr.one : Expr (Exact ℝ)).isZero then _ else _) = _
  rw [notZero]
  rfl

theorem ofExpr?_logarithm : Curve.ofExpr? logarithm = .ok (Curve.fresh logarithm) := by
  have slope : Curve.tooLarge? logarithm .slope = none := by
    rw [Curve.tooLarge?, Expr.ofOrder, derivative_logarithm]
    rfl
  have curvature : Curve.tooLarge? logarithm .curvature = none := by
    have bound := (logarithm.derivative.boundsSlope_derivative).nodes
    rw [derivative_logarithm] at bound
    have within : (Expr.derivative (.binary .div .one .var) : Expr (Exact ℝ)).size ≤ 36 := bound
    have limit : Curve.derivativeLimit = 4096 := rfl
    rw [Curve.tooLarge?, Expr.ofOrder, derivative_logarithm, if_neg (by omega)]
  rw [Curve.ofExpr?_eq]
  simp only [List.findSome?_cons, slope, curvature, List.findSome?_nil]

theorem jetAt_logarithm : ∃ jet, logarithm.jetAt (.known 1) = .ok jet := by
  have slope := (regularAt_logarithm.iterate 1).exactAt_eq
  have curvature := (regularAt_logarithm.iterate 2).exactAt_eq
  exact ⟨_, Expr.jetAt_eq_ok_iff.mpr ⟨1, _, _, _, rfl, rfl, regularAt_logarithm.exactAt_eq, slope,
    curvature⟩⟩

theorem samples_tangentAt_logarithm :
    Curve.ofExpr? logarithm = .ok (Curve.fresh logarithm) ∧ (twoSteps UInt64).fault? = none ∧
      2 * (twoSteps UInt64).stepsPerSide.toNat + 1 < 2 ^ 64 ∧
      ∃ jet, (((Curve.fresh logarithm).afterAll [.evaluate .slope .undefined]).jetAt (.known 1)).1 =
          .ok jet ∧
        ∃ row f₀ f₁ f₂ intercept,
          ((((Curve.fresh logarithm).afterAll [.evaluate .slope .undefined]).jetAt
            (.known 1)).2.samples jet (twoSteps UInt64)).1.TangentAt logarithm 2 row 1 f₀ f₁ f₂
              intercept := by
  have accepted : (twoSteps UInt64).fault? = none := fault?_twoSteps rfl
  have fits : 2 * (twoSteps UInt64).stepsPerSide.toNat + 1 < 2 ^ 64 := by
    change 2 * 2 + 1 < 2 ^ 64
    norm_num
  have used := (Curve.fresh_serves logarithm).afterAll_run [.evaluate .slope .undefined]
  obtain ⟨jet, jetEq⟩ := jetAt_logarithm
  have found := (used.jetAt_step (.known 1)).1.trans jetEq
  obtain ⟨x₀, f₀, f₁, f₂, intercept, reach, row, anchorEq, -, -, -, tangent⟩ :=
    samples_tangentAt_of_jetAt ofExpr?_logarithm [.evaluate .slope .undefined] [] found accepted
      fits
  cases anchorEq
  exact ⟨ofExpr?_logarithm, accepted, fits, jet, found, row, f₀, f₁, f₂, intercept, tangent⟩

end Tangency
