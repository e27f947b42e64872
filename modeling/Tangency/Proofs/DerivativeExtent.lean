/-
How far differentiation makes a tree grow.

Folding never leaves more nodes or levels than the operation that is not folded.  So a rule gives no
more than the tree it writes down, in which each operand and each slope is counted as often as the
rule repeats it.  With `n` nodes and `h` levels in a tree, its derivative has at most `4 * n ^ 2`
nodes and `4 * h` levels; a first derivative within the limit on nodes bounds the second, which is
built before it is checked.

The induction gives a rule slopes within these bounds.  A rule of two operands adds at most twelve
nodes, eight more for each of their nodes and four levels, and the bounds leave room for that.
-/

import Mathlib.Tactic.Ring
import Tangency.Curve
import Tangency.Proofs.FoldedParts
import Tangency.Proofs.WrittenExtent

namespace Tangency

universe u

namespace Expr

variable {α : Type u}

mutual

/-- The number of levels; a leaf and a call without arguments have one. -/
@[simp]
def height : Expr α → Nat
  | number _ => 1
  | var => 1
  | neg operand => 1 + operand.height
  | binary _ left right => 1 + max left.height right.height
  | call _ arguments => 1 + heightAll arguments

@[simp]
def heightAll : List (Expr α) → Nat
  | [] => 0
  | argument :: arguments => max argument.height (heightAll arguments)

end

theorem height_pos (tree : Expr α) : 0 < tree.height := by
  cases tree <;> simp only [height] <;> omega

theorem height_number (literal : α) : (number literal).height = 1 := rfl

theorem height_neg_le {operand : Expr α} {limit : Nat} :
    (neg operand).height ≤ limit + 1 ↔ operand.height ≤ limit := by
  simp only [height]
  omega

theorem height_binary_le {operator : Operator} {left right : Expr α} {limit : Nat} :
    (binary operator left right).height ≤ limit + 1 ↔
      left.height ≤ limit ∧ right.height ≤ limit := by
  simp only [height]
  omega

theorem height_call_le {function : Elementary} {argument : Expr α} {limit : Nat} :
    (call function [argument]).height ≤ limit + 1 ↔ argument.height ≤ limit := by
  simp only [height, heightAll]
  omega

def extent (tree : Expr α) : Extent := ⟨tree.size, tree.height⟩

def NoLarger (tree other : Expr α) : Prop := tree.extent.Le other.extent

namespace NoLarger

variable {tree tree' other left left' right right' : Expr α}

theorem refl (tree : Expr α) : tree.NoLarger tree := Extent.Le.refl _

theorem trans (low : tree.NoLarger tree') (high : tree'.NoLarger other) : tree.NoLarger other :=
  Extent.Le.trans low high

theorem literal (literal : α) (other : Expr α) : (number literal).NoLarger other :=
  ⟨other.size_pos, other.height_pos⟩

theorem left_binary (operator : Operator) (left right : Expr α) :
    left.NoLarger (binary operator left right) := by
  constructor <;> simp only [extent, size, height] <;> omega

theorem right_binary (operator : Operator) (left right : Expr α) :
    right.NoLarger (binary operator left right) := by
  constructor <;> simp only [extent, size, height] <;> omega

theorem neg (inner : tree.NoLarger other) : (neg tree).NoLarger (neg other) := by
  obtain ⟨nodes, levels⟩ := inner
  constructor <;> simp only [extent, size, height] at * <;> omega

theorem binary (operator : Operator) (first : left.NoLarger left')
    (second : right.NoLarger right') :
    (binary operator left right).NoLarger (binary operator left' right') := by
  obtain ⟨firstNodes, firstLevels⟩ := first
  obtain ⟨secondNodes, secondLevels⟩ := second
  constructor <;> simp only [extent, size, height] at * <;> omega

theorem call (function : Elementary) (inner : tree.NoLarger other) :
    (call function [tree]).NoLarger (call function [other]) := by
  obtain ⟨nodes, levels⟩ := inner
  constructor <;> simp only [extent, size, sizeAll, height, heightAll] at * <;> omega

variable [Scalar α]

theorem literalOr (result : α) (unfolded : Expr α) :
    (Expr.literalOr result unfolded).NoLarger unfolded := by
  rcases literalOr_eq_number_or_self result unfolded with ⟨literal, folds⟩ | stays
  · rw [folds]
    exact .literal literal unfolded
  · rw [stays]
    exact .refl unfolded

theorem folded (operator : Operator) (left right : Expr α) :
    (Expr.folded operator left right).NoLarger (.binary operator left right) := by
  unfold Expr.folded
  split
  · exact literalOr _ _
  · exact .refl _

theorem negated (inner : tree.NoLarger other) : (Expr.negated tree).NoLarger (.neg other) := by
  refine trans ?_ inner.neg
  cases tree with
  | number literal => exact .literal _ _
  | neg operand =>
    constructor <;> simp only [Expr.negated, extent, size, height] <;> omega
  | _ => exact .refl _

theorem product (left right : Expr α) :
    (Expr.product left right).NoLarger (.binary .mul left right) := by
  fun_induction Expr.product left right with
  | case1 => exact .literal _ _
  | case2 => exact .right_binary .mul _ _
  | case3 => exact .left_binary .mul _ _
  | case4 a b rest _ _ _ _ ih =>
    -- One literal stands in place of two, and the product of the second with the rest is gone.
    have gathered : (Expr.number (a * b)).NoLarger (.number a) := .literal _ _
    exact ih.trans (.binary .mul gathered (.right_binary .mul _ rest))
  | case5 => exact .refl _
  | case6 => exact .folded .mul _ _

theorem combined (operator : Operator) (first : left.NoLarger left')
    (second : right.NoLarger right') :
    (Expr.combined operator left right).NoLarger (.binary operator left' right') := by
  refine trans ?_ (binary operator first second)
  cases operator with
  | add =>
    change (sum left right).NoLarger _
    unfold sum
    split
    · exact .right_binary .add left right
    · split
      · exact .left_binary .add left right
      · exact .folded .add left right
  | sub =>
    change (difference left right).NoLarger _
    unfold difference
    split
    · exact .left_binary .sub left right
    · split
      · refine trans (negated (.refl right)) ?_
        have positive := left.height_pos
        have someNode := left.size_pos
        constructor <;> simp only [extent, size, height] <;> omega
      · exact .folded .sub left right
  | mul => exact product left right
  | div =>
    change (quotient left right).NoLarger _
    unfold quotient
    split
    · exact .left_binary .div left right
    · exact .folded .div left right
  | pow =>
    change (power left right).NoLarger _
    unfold power
    split
    · exact .left_binary .pow left right
    · split
      · exact .literal _ _
      · exact .folded .pow left right

theorem appliedTo (function : Elementary) (inner : tree.NoLarger other) :
    (Expr.appliedTo function tree).NoLarger (.call function [other]) := by
  refine trans ?_ (call function inner)
  unfold Expr.appliedTo applied
  split
  · exact literalOr _ _
  · exact .refl _

theorem squared (inner : tree.NoLarger other) :
    (Expr.squared tree).NoLarger (.binary .pow other (.number Scalar.two)) :=
  combined .pow inner (.refl _)

end NoLarger

/-! ### Rules -/

/-- The derivative of a tree stays within its bounds. -/
structure BoundsSlope (tree slope : Expr α) : Prop where
  nodes : slope.size ≤ 4 * tree.size ^ 2
  levels : slope.height ≤ 4 * tree.height

section Rules

variable {tree raw inner slope left leftSlope right rightSlope : Expr α}

theorem BoundsSlope.of_binary {operator : Operator} (unfolded : slope.NoLarger raw)
    (first : left.BoundsSlope leftSlope) (second : right.BoundsSlope rightSlope)
    (nodes : raw.size ≤ leftSlope.size + rightSlope.size + 8 * (left.size + right.size) + 12)
    (levels : ∀ limit, leftSlope.height ≤ limit → rightSlope.height ≤ limit →
      left.height ≤ limit → right.height ≤ limit → raw.height ≤ limit + 4) :
    (binary operator left right).BoundsSlope slope := by
  have firstLevels := first.levels
  have secondLevels := second.levels
  constructor
  · have both : 1 ≤ left.size * right.size := Nat.mul_pos left.size_pos right.size_pos
    calc
      slope.size ≤ raw.size := unfolded.nodes
      _ ≤ 4 * left.size ^ 2 + 4 * right.size ^ 2 + 8 * (left.size + right.size) + 12 := by
        have firstNodes := first.nodes
        have secondNodes := second.nodes
        omega
      _ ≤ 4 * left.size ^ 2 + 4 * right.size ^ 2 + 8 * (left.size + right.size) +
          (4 + 8 * (left.size * right.size)) := by omega
      _ = 4 * (1 + left.size + right.size) ^ 2 := by ring
  · have someLevel := left.height_pos
    have below : raw.height ≤ 4 * max left.height right.height + 4 := by
      apply levels <;> omega
    calc
      slope.height ≤ raw.height := unfolded.depth
      _ ≤ 4 * max left.height right.height + 4 := below
      _ = 4 * (1 + max left.height right.height) := by omega

variable [Scalar α]

theorem NoLarger.quotientRule (left leftSlope right rightSlope : Expr α) :
    (Expr.quotientRule left leftSlope right rightSlope).NoLarger
      (.binary .div
        (.binary .sub (.binary .mul leftSlope right) (.binary .mul left rightSlope))
        (.binary .pow right (.number Scalar.two))) :=
  .combined .div
    (.combined .sub (.combined .mul (.refl _) (.refl _)) (.combined .mul (.refl _) (.refl _)))
    (.squared (.refl _))

theorem BoundsSlope.operatorRule (operator : Operator) (first : left.BoundsSlope leftSlope)
    (second : right.BoundsSlope rightSlope) :
    (binary operator left right).BoundsSlope
      (Expr.operatorRule operator left leftSlope right rightSlope) := by
  cases operator with
  | add =>
    refine of_binary (.combined .add (.refl _) (.refl _)) first second ?_ ?_
    · simp only [size]
      omega
    · intro limit _ _ _ _
      simp only [height_binary_le]
      omega
  | sub =>
    refine of_binary (.combined .sub (.refl _) (.refl _)) first second ?_ ?_
    · simp only [size]
      omega
    · intro limit _ _ _ _
      simp only [height_binary_le]
      omega
  | mul =>
    have unfolded := NoLarger.combined .add (.combined .mul (.refl leftSlope) (.refl right))
      (.combined .mul (.refl left) (.refl rightSlope))
    refine of_binary unfolded first second ?_ ?_
    · simp only [size]
      omega
    · intro limit _ _ _ _
      simp only [height_binary_le]
      omega
  | div =>
    refine of_binary (.quotientRule _ _ _ _) first second ?_ ?_
    · simp only [size]
      omega
    · intro limit _ _ _ _
      simp only [height_binary_le, height_number]
      omega
  | pow =>
    have whole := NoLarger.combined .pow (.refl left) (.refl right)
    have logarithm := NoLarger.appliedTo .ln (.refl left)
    change BoundsSlope _ (powerRule left leftSlope right rightSlope)
    unfold powerRule
    split
    · have reduced := NoLarger.combined .pow (.refl left) (.combined .sub (.refl right) (.refl one))
      have unfolded := NoLarger.combined .mul (.combined .mul (.refl right) reduced)
        (.refl leftSlope)
      have positive := right.height_pos
      refine of_binary unfolded first second ?_ ?_
      · simp only [size, one]
        omega
      · intro limit _ _ _ _
        simp only [height_binary_le, height_number, one]
        omega
    · split
      · have unfolded := NoLarger.combined .mul (.combined .mul whole logarithm) (.refl rightSlope)
        refine of_binary unfolded first second ?_ ?_
        · simp only [size, sizeAll]
          omega
        · intro limit _ _ _ _
          simp only [height_binary_le, height_call_le]
          omega
      · have ofExponent := NoLarger.combined .mul (.refl rightSlope) logarithm
        have ofBase := NoLarger.combined .div (.combined .mul (.refl right) (.refl leftSlope))
          (.refl left)
        have unfolded := NoLarger.combined .mul whole (.combined .add ofExponent ofBase)
        refine of_binary unfolded first second ?_ ?_
        · simp only [size, sizeAll]
          omega
        · intro limit _ _ _ _
          simp only [height_binary_le, height_call_le]
          omega

theorem BoundsSlope.negated (bounds : inner.BoundsSlope slope) :
    (neg inner).BoundsSlope (Expr.negated slope) := by
  have unfolded := NoLarger.negated (.refl slope)
  constructor
  · calc
      (Expr.negated slope).size ≤ (neg slope).size := unfolded.nodes
      _ ≤ 1 + 4 * inner.size ^ 2 := Nat.add_le_add_left bounds.nodes 1
      _ ≤ 4 * inner.size ^ 2 + 8 * inner.size + 4 := by omega
      _ = 4 * (1 + inner.size) ^ 2 := by ring
  · calc
      (Expr.negated slope).height ≤ (neg slope).height := unfolded.depth
      _ ≤ 1 + 4 * inner.height := Nat.add_le_add_left bounds.levels 1
      _ ≤ 4 * (1 + inner.height) := by omega

/-- What the rule of a function may make of its argument and the slope of the argument. -/
structure FitsCall (inner slope tree : Expr α) : Prop where
  nodes : tree.size ≤ slope.size + inner.size + 7
  levels : tree.height ≤ max (4 + slope.height) (5 + inner.height)

omit [Scalar α] in
theorem FitsCall.of_noLarger (unfolded : tree.NoLarger raw)
    (nodes : raw.size ≤ slope.size + inner.size + 7)
    (levels : ∀ limit, slope.height ≤ limit + 1 → inner.height ≤ limit →
      raw.height ≤ limit + 5) :
    FitsCall inner slope tree := by
  refine ⟨Nat.le_trans unfolded.nodes nodes, ?_⟩
  have below := levels (max (slope.height - 1) inner.height) (by omega) (by omega)
  have noMore : tree.height ≤ raw.height := unfolded.depth
  omega

omit [Scalar α] in
theorem FitsCall.boundsSlope {function : Elementary} {others : List (Expr α)}
    (fits : FitsCall inner slope tree) (bounds : inner.BoundsSlope slope) :
    (call function (inner :: others)).BoundsSlope tree := by
  have nodes := fits.nodes
  have levels := fits.levels
  have slopeNodes := bounds.nodes
  have slopeLevels := bounds.levels
  have someNode := inner.size_pos
  have someLevel := inner.height_pos
  constructor
  · have inside : 1 + inner.size ≤ (call function (inner :: others)).size := by
      simp only [size, sizeAll]
      omega
    calc
      tree.size ≤ 4 * inner.size ^ 2 + 8 * inner.size + 4 := by omega
      _ = 4 * (1 + inner.size) ^ 2 := by ring
      _ ≤ 4 * (call function (inner :: others)).size ^ 2 :=
        Nat.mul_le_mul_left 4 (Nat.pow_le_pow_left inside 2)
  · simp only [height, heightAll]
    omega

theorem NoLarger.circleRoot (inner : Expr α) :
    (Expr.circleRoot inner).NoLarger
      (.call .sqrt [.binary .sub one (.binary .pow inner (.number Scalar.two))]) :=
  .appliedTo .sqrt (.combined .sub (.refl one) (.squared (.refl inner)))

theorem chainRule_fitsCall (function : Elementary) (inner slope : Expr α) :
    FitsCall inner slope (chainRule function inner slope) := by
  have square : (squared inner).NoLarger (binary .pow inner (number Scalar.two)) :=
    .squared (.refl inner)
  have applies (outer : Elementary) : (appliedTo outer inner).NoLarger (call outer [inner]) :=
    .appliedTo outer (.refl inner)
  have someLevel := inner.height_pos
  cases function with
  | sin | sinh | cosh | exp | abs =>
    refine .of_noLarger (.combined .mul (applies _) (.refl slope)) ?_ ?_
    · simp only [size, sizeAll]
      omega
    · intro limit _ _
      simp only [height_binary_le, height_call_le]
      omega
  | cos =>
    refine .of_noLarger (.combined .mul (.negated (applies .sin)) (.refl slope)) ?_ ?_
    · simp only [size, sizeAll]
      omega
    · intro limit _ _
      simp only [height_neg_le, height_binary_le, height_call_le]
      omega
  | tan | tanh =>
    refine .of_noLarger (.combined .div (.refl slope) (.squared (applies _))) ?_ ?_
    · simp only [size, sizeAll]
      omega
    · intro limit _ _
      simp only [height_binary_le, height_call_le, height_number]
      omega
  | asin =>
    refine .of_noLarger (.combined .div (.refl slope) (.circleRoot inner)) ?_ ?_
    · simp only [size, sizeAll, one]
      omega
    · intro limit _ _
      simp only [height_binary_le, height_call_le, height_number, one]
      omega
  | acos =>
    refine .of_noLarger (.negated (.combined .div (.refl slope) (.circleRoot inner))) ?_ ?_
    · simp only [size, sizeAll, one]
      omega
    · intro limit _ _
      simp only [height_neg_le, height_binary_le, height_call_le, height_number, one]
      omega
  | atan =>
    refine .of_noLarger (.combined .div (.refl slope) (.combined .add (.refl one) square)) ?_ ?_
    · simp only [size, one]
      omega
    · intro limit _ _
      simp only [height_binary_le, height_number, one]
      omega
  | ln | log =>
    refine .of_noLarger (.combined .div (.refl slope) (.refl inner)) ?_ ?_
    · simp only [size]
      omega
    · intro limit _ _
      simp only [height_binary_le]
      omega
  | log10 =>
    have scaled := NoLarger.combined .mul (.refl inner) (.refl (number Scalar.logOfTen))
    refine .of_noLarger (.combined .div (.refl slope) scaled) ?_ ?_
    · simp only [size]
      omega
    · intro limit _ _
      simp only [height_binary_le, height_number]
      omega
  | sqrt =>
    have scaled := NoLarger.combined .mul (.refl (number Scalar.two)) (applies .sqrt)
    refine .of_noLarger (.combined .div (.refl slope) scaled) ?_ ?_
    · simp only [size, sizeAll]
      omega
    · intro limit _ _
      simp only [height_binary_le, height_call_le, height_number]
      omega
  | cbrt =>
    have scaled := NoLarger.combined .mul (.refl (number (Scalar.natural 3)))
      (.squared (applies .cbrt))
    refine .of_noLarger (.combined .div (.refl slope) scaled) ?_ ?_
    · simp only [size, sizeAll]
      omega
    · intro limit _ _
      simp only [height_binary_le, height_call_le, height_number]
      omega
  | sign =>
    refine .of_noLarger (.refl zero) ?_ ?_
    · simp only [size, zero]
      omega
    · intro limit _ _
      simp only [height_number, zero]
      omega

theorem NoLarger.logarithmSlope (inner slope : Expr α) :
    (Expr.logarithmSlope inner slope).NoLarger (.binary .div slope inner) := by
  unfold Expr.logarithmSlope
  split
  · exact .literal _ _
  · split
    · exact .literal _ _
    · exact .combined .div (.refl slope) (.refl inner)

theorem BoundsSlope.baseRule (first : left.BoundsSlope leftSlope)
    (second : right.BoundsSlope rightSlope) :
    (call .log [left, right]).BoundsSlope (Expr.baseRule left leftSlope right rightSlope) := by
  have upper : (appliedTo .ln left).NoLarger (call .ln [left]) := .appliedTo .ln (.refl left)
  have lower : (appliedTo .ln right).NoLarger (call .ln [right]) := .appliedTo .ln (.refl right)
  have upperSlope := NoLarger.logarithmSlope left leftSlope
  have lowerSlope := NoLarger.logarithmSlope right rightSlope
  suffices bounds : (binary .div left right).BoundsSlope
      (Expr.baseRule left leftSlope right rightSlope) by
    have sameNodes : (call .log [left, right]).size = (binary .div left right).size := by
      simp only [size, sizeAll]
      omega
    have sameLevels : (call .log [left, right]).height = (binary .div left right).height := by
      simp only [height, heightAll]
      omega
    exact ⟨sameNodes ▸ bounds.nodes, sameLevels ▸ bounds.levels⟩
  unfold Expr.baseRule
  split
  · refine of_binary upperSlope first second ?_ ?_
    · simp only [size]
      omega
    · intro limit _ _ _ _
      simp only [height_binary_le]
      omega
  · split
    · refine of_binary (.refl zero) first second ?_ ?_
      · simp only [size, zero]
        omega
      · intro limit _ _ _ _
        simp only [height_number, zero]
        omega
    · have change := NoLarger.combined .sub (.combined .mul upperSlope lower)
        (.combined .mul upper lowerSlope)
      have unfolded := NoLarger.combined .div change (.squared lower)
      refine of_binary unfolded first second ?_ ?_
      · simp only [size, sizeAll]
        omega
      · intro limit _ _ _ _
        simp only [height_binary_le, height_call_le, height_number]
        omega

theorem BoundsSlope.zero (tree : Expr α) : tree.BoundsSlope Expr.zero := by
  have someNode : 1 ≤ tree.size ^ 2 := Nat.pow_pos tree.size_pos
  have someLevel := tree.height_pos
  constructor <;> simp only [Expr.zero, size, height] <;> omega

theorem BoundsSlope.callRule (function : Elementary) {arguments slopes : List (Expr α)}
    (bounds : List.Forall₂ BoundsSlope arguments slopes) :
    (call function arguments).BoundsSlope (Expr.callRule function arguments slopes) := by
  unfold Expr.callRule
  split
  · cases bounds with
    | cons first others =>
      cases others with
      | cons second _ => exact .baseRule first second
  · split
    · exact .zero _
    · cases bounds with
      | cons first _ => exact (chainRule_fitsCall _ _ _).boundsSlope first
  · exact .zero _

end Rules

section Differentiation

variable [Scalar α]

mutual

theorem boundsSlope_derivative (tree : Expr α) : tree.BoundsSlope tree.derivative := by
  match tree with
  | number literal => exact .zero _
  | var => exact ⟨Nat.le_add_left 1 3, Nat.le_add_left 1 3⟩
  | neg operand => exact .negated (boundsSlope_derivative operand)
  | binary operator left right =>
    exact .operatorRule operator (boundsSlope_derivative left) (boundsSlope_derivative right)
  | call function arguments => exact .callRule function (boundsSlope_derivativeAll arguments)

theorem boundsSlope_derivativeAll (arguments : List (Expr α)) :
    List.Forall₂ BoundsSlope arguments (derivativeAll arguments) := by
  match arguments with
  | [] => exact .nil
  | argument :: others =>
    exact .cons (boundsSlope_derivative argument) (boundsSlope_derivativeAll others)

end

end Differentiation

end Expr

theorem Curve.checkSize_eq_ok_iff {α : Type} {order : Order} {tree : Expr α} :
    checkSize order tree = .ok () ↔ tree.size ≤ derivativeLimit := by
  unfold checkSize
  split
  · exact iff_of_false nofun (by omega)
  · exact iff_of_true rfl (by omega)

theorem Curve.checkSize_eq_error_iff {α : Type} {order : Order} {tree : Expr α}
    {failure : Failure α} :
    checkSize order tree = .error failure ↔
      derivativeLimit < tree.size ∧ failure = .tooComplex order tree.size derivativeLimit := by
  unfold checkSize
  split
  · rename_i larger
    exact ⟨fun same => ⟨larger, (Except.error.inj same).symm⟩, fun same => same.2 ▸ rfl⟩
  · rename_i within
    exact iff_of_false nofun fun same => within same.1

theorem Curve.slope_passes_of_curvature_refused {α : Type} [Scalar α] {tree : Expr α}
    {size limit : Nat} (refused : ofExpr? tree = .error (.tooComplex .curvature size limit)) :
    checkSize (α := α) .slope tree.derivative = .ok () ∧ size = tree.secondDerivative.size ∧
      limit = derivativeLimit := by
  cases first : checkSize (α := α) .slope tree.derivative with
  | error failure =>
    simp only [ofExpr?, first, bind, Except.bind] at refused
    obtain ⟨-, rfl⟩ := checkSize_eq_error_iff.mp first
    cases refused
  | ok =>
    cases second : checkSize (α := α) .curvature tree.derivative.derivative with
    | error failure =>
      simp only [ofExpr?, first, second, bind, Except.bind] at refused
      obtain ⟨-, rfl⟩ := checkSize_eq_error_iff.mp second
      cases refused
      exact ⟨rfl, rfl, rfl⟩
    | ok =>
      simp only [ofExpr?, first, second, bind, Except.bind] at refused
      cases refused

/-- Differentiation grows a tree at most quadratically in nodes and linearly in levels. So a first
derivative within the limit, which lets the second be built, bounds it before it is checked, and a
second derivative that is refused has not grown further either. -/
theorem derivative_growth_bounded {α : Type} [Scalar α] (tree : Expr α) :
    tree.derivative.size ≤ 4 * tree.size ^ 2 ∧
    tree.derivative.height ≤ 4 * tree.height ∧
    (Curve.checkSize (α := α) .slope tree.derivative = .ok () →
      tree.secondDerivative.size ≤ 4 * Curve.derivativeLimit ^ 2) ∧
    ∀ size limit, Curve.ofExpr? tree = .error (.tooComplex .curvature size limit) →
      size ≤ 4 * limit ^ 2 := by
  have slope := tree.boundsSlope_derivative
  have curvature := tree.derivative.boundsSlope_derivative
  have bounded (checked : Curve.checkSize (α := α) .slope tree.derivative = .ok ()) :
      tree.secondDerivative.size ≤ 4 * Curve.derivativeLimit ^ 2 := by
    have within := Curve.checkSize_eq_ok_iff.mp checked
    exact Nat.le_trans curvature.nodes (Nat.mul_le_mul_left 4 (Nat.pow_le_pow_left within 2))
  refine ⟨slope.nodes, slope.levels, bounded, ?_⟩
  intro size limit refused
  obtain ⟨passes, rfl, rfl⟩ := Curve.slope_passes_of_curvature_refused refused
  exact bounded passes

end Tangency
