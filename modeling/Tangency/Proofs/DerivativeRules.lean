/-
The rules of differentiation denote the slopes of calculus.

Each rule is given operands and slopes that denote numbers, and the tree that it builds
denotes the slope of the operation on real numbers.  This holds under any conditions
that admit what the rules build: powers of a positive base, powers with a whole literal
exponent, and calls of functions where they are smooth.  A rule that looks for constants
relies on constants having slope zero.
-/

import Tangency.Expr.Derivative
import Tangency.Proofs.RealMeaning

namespace Tangency

/-- Conditions that admit the powers and calls of the rules. -/
structure Conditions.Lenient (conditions : Conditions ℝ) : Prop where
  positive {a : ℝ} (above : 0 < a) (exponent : Expr (Exact ℝ)) (b : ℝ) :
    conditions.power a exponent b
  whole {a : ℝ} {n : ℤ} (allowed : a ≠ 0 ∨ 0 ≤ n) : conditions.power a (.number (.known n)) n
  smooth {function : Elementary} {a : ℝ} (smooth : function.SmoothAt a) :
    conditions.call function [a]

/-- What the rules of powers need of the operands: a positive base, or an exponent that is the
literal zero, or a constant exponent for which the power below is admitted too. -/
def Conditions.AdmitsPowerRule (conditions : Conditions ℝ) (a : ℝ) (exponent : Expr (Exact ℝ))
    (b : ℝ) : Prop :=
  0 < a ∨ exponent.isZero = true ∨
    (exponent.isConstant = true ∧ ExactMeaning.pow a (b - 1) = .known (a ^ (b - 1)) ∧
      conditions.power a (exponent.difference Expr.one) (b - 1))

namespace Conditions.Lenient

variable {conditions : Conditions ℝ} {x : ℝ}
variable {tree rate left leftRate right rightRate : Expr (Exact ℝ)} {a b d e : ℝ}

theorem squared (lenient : conditions.Lenient) (denotes : Denotes conditions x tree a) :
    Denotes conditions x tree.squared (a ^ 2) := by
  have defined : ExactMeaning.pow a 2 = .known (a ^ 2) := by
    have power : ExactMeaning.pow a ((2 : ℤ) : ℝ) = .known (a ^ ((2 : ℤ) : ℝ)) :=
      pow_intCast (.inr (by decide))
    rw [Real.rpow_intCast] at power
    exact_mod_cast power
  apply denotes.power .two defined
  have admitted : conditions.power a (.number (.known ((2 : ℤ) : ℝ))) ((2 : ℤ) : ℝ) :=
    lenient.whole (.inr (by decide))
  rw [Exact.two_eq]
  exact_mod_cast admitted

theorem appliedTo (lenient : conditions.Lenient) (function : Elementary)
    (inner : Denotes conditions x tree a) (smooth : function.SmoothAt a) :
    Denotes conditions x (Expr.appliedTo function tree) (function.realValue a) :=
  inner.appliedTo (Elementary.applyOne_known smooth.1) (lenient.smooth smooth)

theorem circleRoot (lenient : conditions.Lenient) (inner : Denotes conditions x tree a)
    (inside : -1 < a ∧ a < 1) :
    Denotes conditions x tree.circleRoot (√(1 - a ^ 2)) ∧ √(1 - a ^ 2) ≠ 0 := by
  have positive := one_sub_sq_pos inside
  have remainder := Denotes.one.difference (lenient.squared inner)
  have root := lenient.appliedTo .sqrt remainder ⟨positive, by simp⟩
  exact ⟨root, (Real.sqrt_pos.mpr positive).ne'⟩

theorem chainRule (lenient : conditions.Lenient) {function : Elementary}
    (inner : Denotes conditions x tree a) (slope : Denotes conditions x rate d)
    (inside : function.InsideAt a) :
    Denotes conditions x (Expr.chainRule function tree rate) (function.realSlope a * d) := by
  cases function with
  | sin =>
    have cosine := lenient.appliedTo .cos inner ⟨trivial, by simp⟩
    exact cosine.product slope
  | cos =>
    have sine := lenient.appliedTo .sin inner ⟨trivial, by simp⟩
    exact sine.negated.product slope
  | tan =>
    have cosine := lenient.appliedTo .cos inner ⟨trivial, by simp⟩
    rw [Elementary.realSlope, one_div_mul_eq_div]
    exact slope.quotient (lenient.squared cosine) (pow_ne_zero 2 inside)
  | asin =>
    obtain ⟨root, nonzero⟩ := lenient.circleRoot inner inside
    rw [Elementary.realSlope, one_div_mul_eq_div]
    exact slope.quotient root nonzero
  | acos =>
    obtain ⟨root, nonzero⟩ := lenient.circleRoot inner inside
    rw [Elementary.realSlope, neg_mul, one_div_mul_eq_div]
    exact (slope.quotient root nonzero).negated
  | atan =>
    have divisor := Denotes.one.sum (lenient.squared inner)
    rw [Elementary.realSlope, one_div_mul_eq_div]
    exact slope.quotient divisor (by positivity)
  | sinh =>
    have cosine := lenient.appliedTo .cosh inner ⟨trivial, by simp⟩
    exact cosine.product slope
  | cosh =>
    have sine := lenient.appliedTo .sinh inner ⟨trivial, by simp⟩
    exact sine.product slope
  | tanh =>
    have cosine := lenient.appliedTo .cosh inner ⟨trivial, by simp⟩
    rw [Elementary.realSlope, one_div_mul_eq_div]
    exact slope.quotient (lenient.squared cosine) (pow_ne_zero 2 (Real.cosh_pos a).ne')
  | exp =>
    have power := lenient.appliedTo .exp inner ⟨trivial, by simp⟩
    exact power.product slope
  | ln | log =>
    rw [Elementary.realSlope, one_div_mul_eq_div]
    exact slope.quotient inner (ne_of_gt inside)
  | log10 =>
    have ten : Denotes conditions x (.number Scalar.logOfTen) (Real.log 10) := .number _
    have nonzero : Real.log 10 ≠ 0 := (Real.log_pos (by norm_num)).ne'
    rw [Elementary.realSlope, one_div_mul_eq_div]
    exact slope.quotient (inner.product ten) (mul_ne_zero (ne_of_gt inside) nonzero)
  | sqrt =>
    have root := lenient.appliedTo .sqrt inner ⟨inside, by simp⟩
    rw [Elementary.realSlope, one_div_mul_eq_div]
    exact slope.quotient (Denotes.two.product root)
      (mul_ne_zero two_ne_zero (Real.sqrt_pos.mpr inside).ne')
  | cbrt =>
    have root := lenient.appliedTo .cbrt inner ⟨inside, by simp⟩
    have three : Denotes conditions x (.number (Scalar.natural 3)) 3 := by
      exact_mod_cast (Denotes.natural 3 : Denotes conditions x _ _)
    rw [Elementary.realSlope, one_div_mul_eq_div]
    exact slope.quotient (three.product (lenient.squared root))
      (mul_ne_zero three_ne_zero (pow_ne_zero 2 (realCubeRoot_ne_zero inside)))
  | abs =>
    have sign := lenient.appliedTo .sign inner ⟨trivial, fun _ => inside⟩
    exact sign.product slope
  | sign =>
    rw [Elementary.realSlope, zero_mul]
    exact .zero

theorem logarithmSlope (inner : Denotes conditions x tree a) (slope : Denotes conditions x rate d)
    (rests : tree.isConstant = true → d = 0) (nonzero : a ≠ 0) :
    Denotes conditions x (Expr.logarithmSlope tree rate) (d / a) := by
  unfold Expr.logarithmSlope
  split
  · rename_i literal folds
    have constant : (Expr.appliedTo .ln tree).isConstant = true := by
      rw [folds]
      rfl
    rw [rests (Expr.isConstant_of_appliedTo constant), zero_div]
    exact .zero
  · split
    · rename_i slopeZero
      rw [slope.eq_zero slopeZero, zero_div]
      exact .zero
    · exact slope.quotient inner nonzero

/-! ### Powers -/

theorem powerRule_of_isConstant (exponentRests : right.isConstant = true)
    (first : Denotes conditions x left a) (firstSlope : Denotes conditions x leftRate d)
    (second : Denotes conditions x right b)
    (defined : ExactMeaning.pow a (b - 1) = .known (a ^ (b - 1)))
    (met : conditions.power a (right.difference Expr.one) (b - 1)) :
    Denotes conditions x (Expr.powerRule left leftRate right rightRate)
      (b * a ^ (b - 1) * d) := by
  unfold Expr.powerRule
  rw [if_pos exponentRests]
  have lower := first.power (second.difference .one) defined met
  exact (second.product lower).product firstSlope

/-- A power with exponent zero has slope zero, also where its base is zero. -/
theorem powerRule_of_isZero (exponentZero : right.isZero = true)
    (firstSlope : Denotes conditions x leftRate d) :
    Denotes conditions x (Expr.powerRule left leftRate right rightRate) 0 := by
  unfold Expr.powerRule
  rw [if_pos (Expr.isConstant_of_isLiteral exponentZero)]
  have vanishes : right.product (left.power (right.difference Expr.one)) = Expr.zero := by
    unfold Expr.product
    rw [exponentZero, Bool.true_or, if_pos rfl]
  rw [vanishes, ← zero_mul d]
  exact Denotes.zero.product firstSlope

theorem powerRule_of_pos (lenient : conditions.Lenient) (positive : 0 < a)
    (first : Denotes conditions x left a) (firstSlope : Denotes conditions x leftRate d)
    (second : Denotes conditions x right b) (secondSlope : Denotes conditions x rightRate e)
    (baseRests : left.isConstant = true → d = 0)
    (exponentRests : right.isConstant = true → e = 0) :
    Denotes conditions x (Expr.powerRule left leftRate right rightRate)
      (Operator.realSlope .pow a d b e) := by
  have power := first.power second (pow_of_pos positive b) (lenient.positive positive right b)
  have logarithm := lenient.appliedTo .ln first ⟨positive, by simp⟩
  rw [Operator.realSlope]
  by_cases constantExponent : right.isConstant = true
  · rw [exponentRests constantExponent, mul_zero, add_zero]
    exact powerRule_of_isConstant constantExponent first firstSlope second
      (pow_of_pos positive _) (lenient.positive positive _ _)
  · unfold Expr.powerRule
    rw [if_neg constantExponent]
    by_cases constantBase : left.isConstant = true
    · rw [if_pos constantBase, baseRests constantBase, mul_zero, zero_add]
      exact (power.product logarithm).product secondSlope
    · rw [if_neg constantBase]
      have change := (secondSlope.product logarithm).sum
        ((second.product firstSlope).quotient first positive.ne')
      have total : b * a ^ (b - 1) * d + a ^ b * Real.log a * e =
          a ^ b * (e * Real.log a + b * d / a) := by
        rw [Real.rpow_sub_one positive.ne']
        ring
      rw [total]
      exact power.product change

theorem powerRule (lenient : conditions.Lenient)
    (first : Denotes conditions x left a) (firstSlope : Denotes conditions x leftRate d)
    (second : Denotes conditions x right b) (secondSlope : Denotes conditions x rightRate e)
    (baseRests : left.isConstant = true → d = 0)
    (exponentRests : right.isConstant = true → e = 0)
    (admitted : conditions.AdmitsPowerRule a right b) :
    Denotes conditions x (Expr.powerRule left leftRate right rightRate)
      (Operator.realSlope .pow a d b e) := by
  rcases admitted with positive | exponentZero | ⟨constant, defined, met⟩
  · exact lenient.powerRule_of_pos positive first firstSlope second secondSlope baseRests
      exponentRests
  · have rests := exponentRests (Expr.isConstant_of_isLiteral exponentZero)
    rw [Operator.realSlope, rests, second.eq_zero exponentZero, zero_mul, zero_mul, mul_zero,
      add_zero]
    exact powerRule_of_isZero exponentZero firstSlope
  · rw [Operator.realSlope, exponentRests constant, mul_zero, add_zero]
    exact powerRule_of_isConstant constant first firstSlope second defined met

theorem operatorRule (lenient : conditions.Lenient) {operator : Operator} {value : ℝ}
    (first : Denotes conditions x left a) (firstSlope : Denotes conditions x leftRate d)
    (second : Denotes conditions x right b) (secondSlope : Denotes conditions x rightRate e)
    (baseRests : left.isConstant = true → d = 0)
    (exponentRests : right.isConstant = true → e = 0)
    (defined : operator.apply (Exact.known a) (Exact.known b) = .known value)
    (admitted : operator = .pow → conditions.AdmitsPowerRule a right b) :
    Denotes conditions x (Expr.operatorRule operator left leftRate right rightRate)
      (operator.realSlope a d b e) := by
  cases operator with
  | add => exact firstSlope.sum secondSlope
  | sub => exact firstSlope.difference secondSlope
  | mul => exact (firstSlope.product second).sum (first.product secondSlope)
  | div =>
    have nonzero : b ≠ 0 := (Exact.eq_of_known_div defined).1
    have change := (firstSlope.product second).difference (first.product secondSlope)
    exact change.quotient (lenient.squared second) (pow_ne_zero 2 nonzero)
  | pow =>
    exact lenient.powerRule first firstSlope second secondSlope baseRests exponentRests
      (admitted rfl)

theorem callRule (lenient : conditions.Lenient) {function : Elementary}
    (inner : Denotes conditions x tree a) (slope : Denotes conditions x rate d)
    (inside : function.InsideAt a) :
    Denotes conditions x (Expr.callRule function [tree] [rate]) (function.realSlope a * d) := by
  have rule : Expr.callRule function [tree] [rate] =
      if rate.isZero then Expr.zero else Expr.chainRule function tree rate := by
    cases function <;> rfl
  rw [rule]
  split
  · rename_i slopeZero
    rw [slope.eq_zero slopeZero, mul_zero]
    exact .zero
  · exact lenient.chainRule inner slope inside

/-- The rule of a logarithm to a base. Where a logarithm or their quotient folds, the arguments are
literals. -/
theorem baseRule (lenient : conditions.Lenient)
    (first : Denotes conditions x left a) (firstSlope : Denotes conditions x leftRate d)
    (second : Denotes conditions x right b) (secondSlope : Denotes conditions x rightRate e)
    (argumentRests : left.isConstant = true → d = 0)
    (baseRests : right.isConstant = true → e = 0)
    (argumentPositive : 0 < a) (basePositive : 0 < b) (baseNotOne : b ≠ 1) :
    Denotes conditions x (Expr.baseRule left leftRate right rightRate)
      (logarithmSlopeToBase a d b e) := by
  have upper : Denotes conditions x (Expr.appliedTo .ln left) (Real.log a) :=
    lenient.appliedTo .ln first ⟨argumentPositive, by simp⟩
  have lower : Denotes conditions x (Expr.appliedTo .ln right) (Real.log b) :=
    lenient.appliedTo .ln second ⟨basePositive, by simp⟩
  have upperSlope := logarithmSlope first firstSlope argumentRests argumentPositive.ne'
  have lowerSlope := logarithmSlope second secondSlope baseRests basePositive.ne'
  have nonzero : Real.log b ≠ 0 := Real.log_ne_zero_of_pos_of_ne_one basePositive baseNotOne
  unfold Expr.baseRule logarithmSlopeToBase
  split
  · rename_i lowerOne
    have constant := Expr.isConstant_of_appliedTo (Expr.isConstant_of_isLiteral lowerOne)
    rw [baseRests constant, lower.eq_one lowerOne, mul_one, zero_div, mul_zero, sub_zero, one_pow,
      div_one]
    exact upperSlope
  · split
    · rename_i literal folds
      -- A quotient that folds had two literals to fold, and neither argument has a slope.
      obtain ⟨⟨_, argumentFolds⟩, ⟨_, baseFolds⟩⟩ := Expr.literals_of_folded folds
      have argumentConstant : (Expr.appliedTo .ln left).isConstant = true := by
        rw [argumentFolds]
        rfl
      have baseConstant : (Expr.appliedTo .ln right).isConstant = true := by
        rw [baseFolds]
        rfl
      rw [argumentRests (Expr.isConstant_of_appliedTo argumentConstant),
        baseRests (Expr.isConstant_of_appliedTo baseConstant)]
      simp only [zero_div, zero_mul, mul_zero, sub_zero]
      exact .zero
    · have change := (upperSlope.product lower).difference (upper.product lowerSlope)
      exact change.quotient (lenient.squared lower) (pow_ne_zero 2 nonzero)

end Conditions.Lenient

end Tangency
