/-
Structured data, as settings arrive in it and reports leave in it. Whole numbers
are kept apart from other numbers, because a count has to be whole while a measure
may be either. Settings are read from a record by name or from a list by position.
Neither asks for any field: an absent one keeps its standard value and an unknown
name is passed over, but a field that is present has to be of its kind, and a list
may not be longer than the fields.
-/

import Tangency.Report
import Tangency.RichScalar

namespace Tangency

inductive Document (α : Type) where
  | null
  | boolean (value : Bool)
  | whole (value : Int)
  | real (value : α)
  | text (value : String)
  | list (items : List (Document α))
  | record (fields : List (String × Document α))

namespace Document

variable {α : Type}

/-- The fields with the given names. The items of a list stand for them in their order, and the
last ones may be left out. -/
def fields? (names : List String) : Document α → Option (List (String × Document α))
  | record fields => some fields
  | list items => if items.length ≤ names.length then some (names.zip items) else none
  | _ => none

/-- The field of a name. If a name is given twice the later field counts. -/
def field? (fields : List (String × Document α)) (name : String) : Option (Document α) :=
  (fields.reverse.find? fun field => field.1 == name).map Prod.snd

def fieldOr {β : Type} (fields : List (String × Document α)) (name : String) (standard : β)
    (kind? : Document α → Option β) : Option β :=
  match field? fields name with
  | some given => kind? given
  | none => some standard

/-- A measure; a whole number stands for itself. -/
def measure? [Scalar α] : Document α → Option α
  | real value => some value
  | whole value => some (Scalar.whole value)
  | _ => none

def count? : Document α → Option UInt64
  | whole value => if 0 ≤ value ∧ value < twoTo 64 then some (UInt64.ofNat value.toNat) else none
  | _ => none

def ofScalar [Scalar α] (value : α) : Document α :=
  if Scalar.isFinite value then real value else null

end Document

section Settings

variable {α : Type} [Scalar α] [Numeral α]

def GridSettings.ofDocument? (document : Document α) : Option (GridSettings α) := do
  let fields ← document.fields? ["min_half_width", "width_scale", "steps_per_side"]
  let standard : GridSettings α := .standard
  let minHalfWidth ←
    Document.fieldOr fields "min_half_width" standard.minHalfWidth Document.measure?
  let widthScale ← Document.fieldOr fields "width_scale" standard.widthScale Document.measure?
  let stepsPerSide ←
    Document.fieldOr fields "steps_per_side" standard.stepsPerSide Document.count?
  return ⟨minHalfWidth, widthScale, stepsPerSide⟩

def Settings.ofDocument? (document : Document α) : Option (Settings α) := do
  let fields ← document.fields? ["sampler", "flat_tolerance"]
  let standard : Settings α := .standard
  let grid ← Document.fieldOr fields "sampler" standard.grid GridSettings.ofDocument?
  let flatTolerance ←
    Document.fieldOr fields "flat_tolerance" standard.flatTolerance Document.measure?
  return ⟨grid, flatTolerance⟩

end Settings

variable {α : Type} [Scalar α]

def GridSettings.document (settings : GridSettings α) : Document α :=
  .record
    [("min_half_width", .ofScalar settings.minHalfWidth),
      ("width_scale", .ofScalar settings.widthScale),
      ("steps_per_side", .whole settings.stepsPerSide.toNat)]

def Settings.document (settings : Settings α) : Document α :=
  .record
    [("sampler", settings.grid.document), ("flat_tolerance", .ofScalar settings.flatTolerance)]

def Jet.document (jet : Jet α) : Document α :=
  .record
    [("f0", .ofScalar jet.value), ("f1", .ofScalar jet.slope), ("f2", .ofScalar jet.curvature),
      ("x0", .ofScalar jet.anchor)]

def Behavior.document (behavior : Behavior) : Document α :=
  .record
    [("trend", .text behavior.trend.label), ("concavity", .text behavior.concavity.label)]

def SamplePoint.document (point : SamplePoint α) : Document α :=
  .record [("x", .ofScalar point.x), ("y", .ofScalar point.y)]

def Series.document (series : Series α) : Document α :=
  .record [("points", .list (series.map SamplePoint.document))]

def Samples.document (samples : Samples α) : Document α :=
  .record
    [("original", samples.function.document), ("linear", samples.line.document),
      ("quadratic", samples.parabola.document)]

def Report.document (report : Report α) : Document α :=
  .record
    [("expression", .text report.expression), ("first_derivative", .text report.slope),
      ("second_derivative", .text report.curvature), ("coefficients", report.jet.document),
      ("linear_formula", .text report.lineFormula),
      ("quadratic_formula", .text report.parabolaFormula),
      ("behavior", report.behavior.document), ("samples", report.samples.document)]

end Tangency
