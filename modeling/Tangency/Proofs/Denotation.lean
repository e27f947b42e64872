/-
What a tree denotes at a point, over exact arithmetic.

A tree denotes a number at a point if every part of it is defined there and meets some
conditions on powers and calls.  The conditions are a parameter: none at all gives
the plain value, and stricter ones keep away from the edges of a domain.  The folding
constructors keep the denoted number, each under the conditions of the operation that
it builds.
-/

import Tangency.Proofs.Exact

namespace Tangency

universe u

namespace Expr

variable {α : Type u}

mutual

/-- A property of every part of a tree, the whole tree among them. -/
def Throughout (property : Expr α → Prop) : Expr α → Prop
  | number literal => property (number literal)
  | var => property var
  | neg operand => property (neg operand) ∧ operand.Throughout property
  | binary operator left right =>
    property (binary operator left right) ∧ left.Throughout property ∧ right.Throughout property
  | call function arguments =>
    property (call function arguments) ∧ ThroughoutAll property arguments

def ThroughoutAll (property : Expr α → Prop) : List (Expr α) → Prop
  | [] => True
  | argument :: arguments => argument.Throughout property ∧ ThroughoutAll property arguments

end

theorem Throughout.holds {property : Expr α → Prop} {tree : Expr α}
    (everywhere : tree.Throughout property) : property tree := by
  cases tree with
  | number literal => exact everywhere
  | var => exact everywhere
  | neg operand => exact everywhere.1
  | binary operator left right => exact everywhere.1
  | call function arguments => exact everywhere.1

mutual

theorem Throughout.and {first second both : Expr α → Prop}
    (together : ∀ part, first part → second part → both part) {tree : Expr α}
    (ofFirst : tree.Throughout first) (ofSecond : tree.Throughout second) :
    tree.Throughout both := by
  match tree with
  | number literal => exact together _ ofFirst ofSecond
  | var => exact together _ ofFirst ofSecond
  | neg operand =>
    exact ⟨together _ ofFirst.1 ofSecond.1, Throughout.and together ofFirst.2 ofSecond.2⟩
  | binary operator left right =>
    exact ⟨together _ ofFirst.1 ofSecond.1, Throughout.and together ofFirst.2.1 ofSecond.2.1,
      Throughout.and together ofFirst.2.2 ofSecond.2.2⟩
  | call function arguments =>
    exact ⟨together _ ofFirst.1 ofSecond.1, ThroughoutAll.and together ofFirst.2 ofSecond.2⟩

theorem ThroughoutAll.and {first second both : Expr α → Prop}
    (together : ∀ part, first part → second part → both part) {arguments : List (Expr α)}
    (ofFirst : ThroughoutAll first arguments) (ofSecond : ThroughoutAll second arguments) :
    ThroughoutAll both arguments := by
  match arguments with
  | [] => exact trivial
  | argument :: others =>
    exact ⟨Throughout.and together ofFirst.1 ofSecond.1,
      ThroughoutAll.and together ofFirst.2 ofSecond.2⟩

end

theorem Throughout.imp {first second : Expr α → Prop} (weaker : ∀ part, first part → second part)
    {tree : Expr α} (everywhere : tree.Throughout first) : tree.Throughout second :=
  everywhere.and (fun part holds _ => weaker part holds) everywhere

end Expr

variable {K : Type u} [Field K] [DecidableEq K] [ExactMeaning K]

def Expr.exactAt (x : K) (tree : Expr (Exact K)) : Exact K := tree.value id (.known x)

/-- Conditions on the powers of a tree, by the value of the base and by the exponent with its value,
and on its calls, by the values of the arguments. -/
structure Conditions (K : Type u) where
  power (base : K) (exponent : Expr (Exact K)) (value : K) : Prop
  call (function : Elementary) (values : List K) : Prop

namespace Conditions

def none : Conditions K := ⟨fun _ _ _ => True, fun _ _ => True⟩

def operation (conditions : Conditions K) (operator : Operator) (left : K)
    (right : Expr (Exact K)) (value : K) : Prop :=
  match operator with
  | .pow => conditions.power left right value
  | _ => True

/-- A part of a tree is defined at a point and meets the conditions there. The divisor of a defined
quotient is never zero; it is named all the same. -/
def MetAt (conditions : Conditions K) (x : K) (part : Expr (Exact K)) : Prop :=
  (∃ value, part.exactAt x = .known value) ∧
    match part with
    | .binary .div _ divisor => divisor.exactAt x ≠ .known 0
    | .binary .pow base exponent =>
      ∃ a b, base.exactAt x = .known a ∧ exponent.exactAt x = .known b ∧
        conditions.power a exponent b
    | .call function arguments =>
      ∃ values, arguments.map (Expr.exactAt x) = values.map .known ∧ conditions.call function values
    | _ => True

end Conditions

/-- The tree denotes a number at a point, and its parts meet the conditions there. -/
inductive Denotes (conditions : Conditions K) (x : K) : Expr (Exact K) → K → Prop where
  | number (value : K) : Denotes conditions x (.number (.known value)) value
  | var : Denotes conditions x .var x
  | neg {operand : Expr (Exact K)} {a : K} (inner : Denotes conditions x operand a) :
      Denotes conditions x (.neg operand) (-a)
  | binary {operator : Operator} {left right : Expr (Exact K)} {a b value : K}
      (first : Denotes conditions x left a) (second : Denotes conditions x right b)
      (defined : operator.apply (Exact.known a) (Exact.known b) = .known value)
      (met : conditions.operation operator a right b) :
      Denotes conditions x (.binary operator left right) value
  | call {function : Elementary} {argument : Expr (Exact K)} {a value : K}
      (inner : Denotes conditions x argument a)
      (defined : function.applyOne (Exact.known a) = .known value)
      (met : conditions.call function [a]) :
      Denotes conditions x (.call function [argument]) value
  | logarithm {argument base : Expr (Exact K)} {a b value : K}
      (first : Denotes conditions x argument a) (second : Denotes conditions x base b)
      (defined : Scalar.ln (Exact.known a) / Scalar.ln (Exact.known b) = .known value)
      (met : conditions.call .log [a, b]) :
      Denotes conditions x (.call .log [argument, base]) value

theorem Elementary.eq_of_apply_known {function : Elementary} {arguments : List (Exact K)}
    {value : K} (defined : function.apply arguments = .known value) :
    (∃ argument, arguments = [argument] ∧ function.applyOne argument = .known value) ∨
      (function = .log ∧ ∃ argument base, arguments = [argument, base] ∧
        Scalar.ln argument / Scalar.ln base = .known value) := by
  match arguments with
  | [] => cases function <;> cases defined
  | [argument] => exact .inl ⟨argument, rfl, (apply_singleton function argument) ▸ defined⟩
  | [argument, base] =>
    cases function with
    | log => exact .inr ⟨rfl, argument, base, rfl, defined⟩
    | _ => cases defined
  | _ :: _ :: _ :: _ => cases function <;> cases defined

namespace Denotes

variable {conditions : Conditions K} {x : K}

theorem exactAt_eq {tree : Expr (Exact K)} {value : K} (denotes : Denotes conditions x tree value) :
    tree.exactAt x = .known value := by
  induction denotes with
  | number value => rfl
  | var => rfl
  | neg inner ih =>
    change -Expr.exactAt x _ = _
    rw [ih]
    rfl
  | binary first second defined met ihFirst ihSecond =>
    change Operator.apply _ (Expr.exactAt x _) (Expr.exactAt x _) = _
    rw [ihFirst, ihSecond, defined]
  | call inner defined met ih =>
    change Elementary.apply _ [Expr.exactAt x _] = _
    rw [ih, Elementary.apply_singleton, defined]
  | logarithm first second defined met ihFirst ihSecond =>
    change Scalar.ln (Expr.exactAt x _) / Scalar.ln (Expr.exactAt x _) = _
    rw [ihFirst, ihSecond, defined]

theorem value_unique {tree : Expr (Exact K)} {first second : K}
    (one : Denotes conditions x tree first) (other : Denotes conditions x tree second) :
    first = second :=
  Exact.known_injective (one.exactAt_eq.symm.trans other.exactAt_eq)

theorem throughout {tree : Expr (Exact K)} {value : K} (denotes : Denotes conditions x tree value) :
    tree.Throughout (conditions.MetAt x) := by
  induction denotes with
  | number value => exact ⟨⟨value, rfl⟩, trivial⟩
  | var => exact ⟨⟨x, rfl⟩, trivial⟩
  | neg inner ih => exact ⟨⟨⟨_, (neg inner).exactAt_eq⟩, trivial⟩, ih⟩
  | @binary operator left right a b value first second defined met ihFirst ihSecond =>
    refine ⟨⟨⟨value, (binary first second defined met).exactAt_eq⟩, ?_⟩, ihFirst, ihSecond⟩
    cases operator with
    | div =>
      have nonzero : b ≠ 0 := (Exact.eq_of_known_div defined).1
      intro zero
      exact nonzero (Exact.known_injective (second.exactAt_eq.symm.trans zero))
    | pow => exact ⟨a, b, first.exactAt_eq, second.exactAt_eq, met⟩
    | _ => trivial
  | @call function argument a value inner defined met ih =>
    refine ⟨⟨⟨value, (call inner defined met).exactAt_eq⟩, [a], ?_, met⟩, ih, trivial⟩
    rw [List.map_singleton, List.map_singleton, inner.exactAt_eq]
  | @logarithm argument base a b value first second defined met ihFirst ihSecond =>
    refine ⟨⟨⟨value, (logarithm first second defined met).exactAt_eq⟩, [a, b], ?_, met⟩,
      ihFirst, ihSecond, trivial⟩
    simp only [List.map_cons, List.map_nil, first.exactAt_eq, second.exactAt_eq]

theorem map_eq_pair {α β : Type u} {f : α → β} {list : List α} {one other : β}
    (same : list.map f = [one, other]) :
    ∃ a b, list = [a, b] ∧ f a = one ∧ f b = other := by
  match list with
  | [a, b] =>
    simp only [List.map_cons, List.map_nil, List.cons.injEq, and_true] at same
    exact ⟨a, b, rfl, same⟩

theorem of_throughout {tree : Expr (Exact K)} (everywhere : tree.Throughout (conditions.MetAt x)) :
    ∃ value, Denotes conditions x tree value := by
  obtain ⟨⟨value, defined⟩, met⟩ := everywhere.holds
  match tree with
  | .number literal =>
    have known : literal = .known value := defined
    exact ⟨value, known ▸ number value⟩
  | .var => exact ⟨x, var⟩
  | .neg operand =>
    obtain ⟨a, inner⟩ := of_throughout everywhere.2
    exact ⟨-a, neg inner⟩
  | .binary operator left right =>
    obtain ⟨a, first⟩ := of_throughout everywhere.2.1
    obtain ⟨b, second⟩ := of_throughout everywhere.2.2
    change operator.apply (left.exactAt x) (right.exactAt x) = _ at defined
    rw [first.exactAt_eq, second.exactAt_eq] at defined
    refine ⟨value, binary first second defined ?_⟩
    cases operator with
    | pow =>
      obtain ⟨a', b', baseValue, exponentValue, allowed⟩ := met
      have sameBase : a = a' := Exact.known_injective (first.exactAt_eq.symm.trans baseValue)
      have sameExponent : b = b' :=
        Exact.known_injective (second.exactAt_eq.symm.trans exponentValue)
      exact sameBase ▸ sameExponent ▸ allowed
    | _ => trivial
  | .call function arguments =>
    obtain ⟨values, argumentValues, allowed⟩ := met
    change function.apply (Expr.valueAll id (.known x) arguments) = _ at defined
    rw [Expr.valueAll_eq_map] at defined
    rcases Elementary.eq_of_apply_known defined with
      ⟨given, one, result⟩ | ⟨isLog, given, givenBase, two, result⟩
    · obtain ⟨argument, rfl, rfl⟩ := List.map_eq_singleton_iff.mp one
      obtain ⟨a, inner⟩ := of_throughout everywhere.2.1
      obtain ⟨a', rfl, same⟩ := List.map_eq_singleton_iff.mp argumentValues.symm
      have sameArgument : a' = a := Exact.known_injective (same.trans inner.exactAt_eq)
      change function.applyOne (argument.exactAt x) = _ at result
      rw [inner.exactAt_eq] at result
      exact ⟨value, call inner result (sameArgument ▸ allowed)⟩
    · subst isLog
      obtain ⟨argument, base, rfl, rfl, rfl⟩ := map_eq_pair two
      obtain ⟨a, first⟩ := of_throughout everywhere.2.1
      obtain ⟨b, second⟩ := of_throughout everywhere.2.2.1
      obtain ⟨a', b', rfl, same, sameBase⟩ := map_eq_pair argumentValues.symm
      have sameArgument : a' = a := Exact.known_injective (same.trans first.exactAt_eq)
      have sameBase : b' = b := Exact.known_injective (sameBase.trans second.exactAt_eq)
      change Scalar.ln (argument.exactAt x) / Scalar.ln (base.exactAt x) = _ at result
      rw [first.exactAt_eq, second.exactAt_eq] at result
      exact ⟨value, logarithm first second result (sameArgument ▸ sameBase ▸ allowed)⟩

end Denotes

end Tangency
