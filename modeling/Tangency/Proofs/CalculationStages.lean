/-
A calculation fails at its first failing stage, and agrees with a prepared curve.

Each stage says by itself what is wrong with the input, from the text, the anchor and the
settings alone; the sizes and the values are those of the trees.  A calculation fails with
the first of these failures and not otherwise.

What a calculation reports is what a curve of the same text answers, whatever the curve has
been used for before.
-/

import Tangency.Proofs.CurveHistory
import Tangency.Report

namespace Tangency

variable {α : Type} [Scalar α]

inductive Stage where
  | settings
  | anchor
  | text
  | size (order : Order)
  | finite (order : Order)

def Stage.all : List Stage :=
  [.settings, .anchor, .text, .size .slope, .size .curvature, .finite .value, .finite .slope,
    .finite .curvature]

def Expr.notFinite? (tree : Expr α) (anchor : α) (order : Order) : Option (Failure α) :=
  if isUsable ((tree.ofOrder order).value id anchor) then none else some (.notFinite order anchor)

/-- What is wrong with the input at a stage. A text that is not read has no sizes and no values. -/
def Stage.failure? [Numeral α] (source : String) (anchor : α) (settings : Settings α) :
    Stage → Option (Failure α)
  | .settings => settings.fault?.map .badSettings
  | .anchor => if Scalar.isFinite anchor then none else some (.anchorNotFinite anchor)
  | .text =>
    match Expr.ofText? (α := α) source with
    | .ok _ => none
    | .error failure => some failure
  | .size order =>
    match Expr.ofText? source with
    | .ok tree => Curve.tooLarge? tree order
    | .error _ => none
  | .finite order =>
    match Expr.ofText? source with
    | .ok tree => tree.notFinite? anchor order
    | .error _ => none

theorem Expr.jetAt_eq (tree : Expr α) {anchor : α} (finite : Scalar.isFinite anchor = true) :
    tree.jetAt anchor =
      match [Order.value, .slope, .curvature].findSome? (tree.notFinite? anchor) with
      | some failure => .error failure
      | none => .ok ⟨tree.value id anchor, tree.derivative.value id anchor,
          tree.derivative.derivative.value id anchor, anchor⟩ := by
  have valueEq : ∀ order, tree.finiteValue order anchor =
      match tree.notFinite? anchor order with
      | some failure => .error failure
      | none => .ok ((tree.ofOrder order).value id anchor) := by
    intro order
    unfold finiteValue notFinite?
    split <;> rfl
  rw [jetAt, if_pos finite, valueEq, valueEq, valueEq]
  simp only [List.findSome?_cons, List.findSome?_nil]
  cases tree.notFinite? anchor .value with
  | some failure => rfl
  | none =>
    cases tree.notFinite? anchor .slope with
    | some failure => rfl
    | none =>
      cases tree.notFinite? anchor .curvature with
      | some failure => rfl
      | none => rfl

namespace Report

variable [Numeral α]

theorem calculate_eq (source : String) (anchor : α) (settings : Settings α) :
    calculate source anchor settings =
      match settings.fault? with
      | some fault => .error (.badSettings fault)
      | none =>
        if Scalar.isFinite anchor then
          match Curve.ofText? source with
          | .error failure => .error failure
          | .ok curve =>
            match (curve.jetAt anchor).1 with
            | .error failure => .error failure
            | .ok jet => .ok (ofCurve (curve.jetAt anchor).2 jet settings)
        else .error (.anchorNotFinite anchor) := by
  unfold calculate Settings.check
  cases settings.fault? with
  | some fault => rfl
  | none =>
    simp only [bind, Except.bind]
    by_cases finite : Scalar.isFinite anchor = true
    · rw [if_pos finite, if_pos finite]
      cases Curve.ofText? (α := α) source with
      | error failure => rfl
      | ok curve =>
        cases jetEq : curve.jetAt anchor with
        | mk outcome used =>
          cases outcome with
          | error failure => simp only [jetEq]
          | ok jet =>
            simp only [jetEq]
            rfl
    · rw [if_neg finite, if_neg finite]

theorem calculate_firstFailure (source : String) (anchor : α) (settings : Settings α)
    (failure : Failure α) :
    calculate source anchor settings = .error failure ↔
      Stage.all.findSome? (Stage.failure? source anchor settings) = some failure := by
  have grouped : Stage.all = [.settings, .anchor, .text] ++
      ([Order.slope, .curvature].map .size ++ [Order.value, .slope, .curvature].map .finite) := rfl
  have sizeEq : Stage.failure? source anchor settings ∘ Stage.size = fun order =>
      match Expr.ofText? (α := α) source with
      | .ok tree => Curve.tooLarge? tree order
      | .error _ => none := rfl
  have finiteEq : Stage.failure? source anchor settings ∘ Stage.finite = fun order =>
      match Expr.ofText? (α := α) source with
      | .ok tree => tree.notFinite? anchor order
      | .error _ => none := rfl
  have frontEq :
      [Stage.settings, .anchor, .text].findSome? (Stage.failure? source anchor settings) =
      ((Stage.failure? source anchor settings .settings).or
        ((Stage.failure? source anchor settings .anchor).or
          (Stage.failure? source anchor settings .text))) := by
    simp only [List.findSome?_cons, List.findSome?_nil]
    cases Stage.failure? source anchor settings .settings <;>
      cases Stage.failure? source anchor settings .anchor <;>
      cases Stage.failure? source anchor settings .text <;> rfl
  rw [calculate_eq, grouped, List.findSome?_append, List.findSome?_append, List.findSome?_map,
    List.findSome?_map, sizeEq, finiteEq, frontEq]
  simp only [Stage.failure?]
  cases settings.fault? with
  | some fault => simp
  | none =>
    by_cases finite : Scalar.isFinite anchor = true
    · simp only [if_pos finite, Option.map_none, Curve.ofText?_eq]
      cases Expr.ofText? (α := α) source with
      | error failed => simp
      | ok tree =>
        have jetEq := ((Curve.fresh_serves tree).jetAt_step anchor).1
        simp only [Curve.ofExpr?_eq, Option.none_or]
        cases [Order.slope, .curvature].findSome? (Curve.tooLarge? tree) with
        | some failed => simp
        | none =>
          simp only [jetEq, tree.jetAt_eq finite]
          cases [Order.value, .slope, .curvature].findSome? (tree.notFinite? anchor) with
          | some failed => simp
          | none => simp
    · simp [if_neg finite]

theorem calculate_eq_ok_iff (source : String) (anchor : α) (settings : Settings α)
    (report : Report α) :
    calculate source anchor settings = .ok report ↔
      settings.check = .ok () ∧ Scalar.isFinite anchor = true ∧
        ∃ curve, Curve.ofText? source = .ok curve ∧
          ∃ jet, (curve.jetAt anchor).1 = .ok jet ∧
            ofCurve (curve.jetAt anchor).2 jet settings = report := by
  rw [calculate_eq, Settings.check]
  cases settings.fault? with
  | some fault => simp
  | none =>
    by_cases finite : Scalar.isFinite anchor = true
    · simp only [if_pos finite]
      cases Curve.ofText? (α := α) source with
      | error failed => simp
      | ok curve =>
        cases jetEq : (curve.jetAt anchor).1 with
        | error failed => simp [jetEq]
        | ok jet => simp [finite, jetEq]
    · simp [finite]

end Report

/-- A calculation succeeds exactly if the settings pass their check, the anchor is finite, the text
is prepared as a curve and the curve has a jet at the anchor; otherwise its failure is that of the
first stage that has one. What it reports is what a curve of the text answers after any history of
uses. -/
theorem calculation_agrees_with_curve [Numeral α] (source : String) (anchor : α)
    (settings : Settings α) :
    ((∃ report, Report.calculate source anchor settings = .ok report) ↔
      settings.check = .ok () ∧ Scalar.isFinite anchor = true ∧
        ∃ curve, Curve.ofText? source = .ok curve ∧ ∃ jet, (curve.jetAt anchor).1 = .ok jet) ∧
    (∀ failure, Report.calculate source anchor settings = .error failure ↔
      Stage.all.findSome? (Stage.failure? source anchor settings) = some failure) ∧
    (∀ report curve, Report.calculate source anchor settings = .ok report →
      Curve.ofText? source = .ok curve → ∀ history : List (Use α),
        ((curve.afterAll history).jetAt anchor).1 = .ok report.jet ∧
        ((curve.afterAll history).samples report.jet settings.grid).1 = report.samples ∧
        (curve.afterAll history).function.tree.text = report.expression ∧
        (curve.afterAll history).slope.tree.text = report.slope ∧
        (curve.afterAll history).curvature.tree.text = report.curvature) := by
  refine ⟨?_, Report.calculate_firstFailure source anchor settings, ?_⟩
  · constructor
    · rintro ⟨report, calculated⟩
      rcases (Report.calculate_eq_ok_iff source anchor settings report).mp calculated with
        ⟨checked, finite, curve, prepared, jet, found, -⟩
      exact ⟨checked, finite, curve, prepared, jet, found⟩
    · rintro ⟨checked, finite, curve, prepared, jet, found⟩
      exact ⟨_, (Report.calculate_eq_ok_iff source anchor settings _).mpr
        ⟨checked, finite, curve, prepared, jet, found, rfl⟩⟩
  · intro report curve calculated prepared history
    rcases (Report.calculate_eq_ok_iff source anchor settings report).mp calculated with
      ⟨-, -, other, otherPrepared, jet, found, rfl⟩
    cases prepared.symm.trans otherPrepared
    rcases Curve.ofText?_serves prepared with ⟨tree, serves⟩
    have used := (serves.jetAt_step anchor).2
    have later := serves.afterAll_run history
    have sameTree : ∀ order, ((curve.afterAll history).compiled order).tree =
        (((curve.jetAt anchor).2).compiled order).tree := fun order =>
      (later order).tree_eq.trans (used order).tree_eq.symm
    refine ⟨?_, ?_, ?_, ?_, ?_⟩
    · rw [(later.jetAt_step anchor).1, ← (serves.jetAt_step anchor).1, found]
      rfl
    · exact (later.samples_step jet settings.grid).1.trans
        (used.samples_step jet settings.grid).1.symm
    · exact congrArg Expr.text (sameTree .value)
    · exact congrArg Expr.text (sameTree .slope)
    · exact congrArg Expr.text (sameTree .curvature)

end Tangency
