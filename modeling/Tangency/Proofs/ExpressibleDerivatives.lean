/-
Derivatives stay among the trees that can be written and read.

A tree over doubles is expressible if its literals are finite and its calls are accepted.  Folding
carries an operation on literals out only where the result is finite, and changes otherwise at most
the sign of a literal; the rules of differentiation build calls with one argument, which every
function accepts.  So every derivative, of any order, of an expressible tree is expressible, and its
text is read back unless a limit of reading is exceeded.
-/

import Tangency.Proofs.FoldedParts
import Tangency.Proofs.RoundTrip

namespace Tangency

universe u

namespace Elementary

theorem acceptsCount_one (function : Elementary) : function.acceptsCount 1 = true := by
  cases function <;> rfl

theorem apply_of_not_acceptsCount {α : Type u} [Scalar α] {function : Elementary}
    {arguments : List α} (refused : function.acceptsCount arguments.length = false) :
    function.apply arguments = Scalar.undefined := by
  match arguments with
  | [] => cases function <;> rfl
  | [argument] => exact absurd function.acceptsCount_one (Bool.eq_false_iff.mp refused)
  | [argument, base] =>
    cases function with
    | log => cases refused
    | _ => rfl
  | _ :: _ :: _ :: _ => cases function <;> rfl

end Elementary

namespace Expr

theorem isFinite_of_mem_ruleLiterals {literal : Binary64} (brought : literal ∈ ruleLiterals) :
    Scalar.isFinite literal = true := by
  have allFinite : (ruleLiterals : List Binary64).all Scalar.isFinite = true := by decide
  exact List.all_eq_true.mp allFinite literal brought

theorem indifferent_literalsFinite :
    Indifferent fun part : Expr Binary64 =>
      ∀ literal, part = number literal → Scalar.isFinite literal = true where
  literal := by
    rintro _ brought _ ⟨⟩
    exact isFinite_of_mem_ruleLiterals brought
  finite := by
    rintro _ finite _ ⟨⟩
    exact finite
  opposite := by
    rintro literal holds _ ⟨⟩
    exact (Binary64.isFinite_neg literal).trans (holds literal rfl)
  neg _ := nofun
  binary _ _ _ := nofun
  callOne _ _ := nofun

theorem indifferent_callsAccepted {α : Type u} [Scalar α] :
    Indifferent fun part : Expr α => ∀ function arguments, part = call function arguments →
      function.acceptsCount arguments.length = true where
  literal _ := nofun
  finite _ := nofun
  opposite _ := nofun
  neg _ := nofun
  binary _ _ _ := nofun
  callOne := by
    rintro function argument _ _ ⟨⟩
    exact function.acceptsCount_one

/-- Every literal is finite, and every call has a number of arguments that its function accepts. -/
structure Expressible (tree : Expr Binary64) : Prop where
  finite : tree.LiteralsFinite
  accepted : tree.CallsAccepted

namespace Expressible

variable {operand left right : Expr Binary64}

theorem negated (expressible : operand.Expressible) : (Expr.negated operand).Expressible :=
  ⟨indifferent_literalsFinite.negated expressible.finite,
    indifferent_callsAccepted.negated expressible.accepted⟩

theorem combined (operator : Operator) (first : left.Expressible) (second : right.Expressible) :
    (Expr.combined operator left right).Expressible :=
  ⟨indifferent_literalsFinite.combined operator first.finite second.finite,
    indifferent_callsAccepted.combined operator first.accepted second.accepted⟩

theorem literalsFinite_applied (function : Elementary) {arguments : List (Expr Binary64)}
    (expressible : ∀ argument ∈ arguments, argument.Expressible) :
    (applied function arguments).LiteralsFinite :=
  indifferent_literalsFinite.applied nofun
    (throughoutAll_iff.mpr fun argument member => (expressible argument member).finite)

theorem callsAccepted_applied_iff (function : Elementary) {arguments : List (Expr Binary64)}
    (expressible : ∀ argument ∈ arguments, argument.Expressible) :
    (applied function arguments).CallsAccepted ↔ function.acceptsCount arguments.length = true := by
  constructor
  · intro accepted
    by_contra refused
    have stays : applied function arguments = call function arguments := by
      unfold applied
      split
      · rename_i literals found
        have undefined : function.apply literals = Scalar.undefined := by
          apply Elementary.apply_of_not_acceptsCount
          rw [arguments_of_mapM_literal? found, List.length_map] at refused
          exact Bool.eq_false_iff.mpr refused
        rw [undefined]
        rfl
      · rfl
    rw [stays] at accepted
    exact refused (accepted.holds function arguments rfl)
  · intro accepts
    refine indifferent_callsAccepted.applied ?_
      (throughoutAll_iff.mpr fun argument member => (expressible argument member).accepted)
    rintro _ _ ⟨⟩
    exact accepts

theorem derivative_iterate (expressible : operand.Expressible) (order : Nat) :
    (derivative^[order] operand).Expressible :=
  ⟨indifferent_literalsFinite.keptByFolding.derivative_iterate expressible.finite order,
    indifferent_callsAccepted.keptByFolding.derivative_iterate expressible.accepted order⟩

theorem text_read (expressible : operand.Expressible) :
    (∃ read : Expr Binary64, ofText? operand.text = .ok read) ∨
      ∃ position fault, ofText? (α := Binary64) operand.text = .error (.malformed position fault) ∧
        (fault = .nestedTooDeeply ∨ fault = .tooLong Reader.nodeLimit) := by
  rcases ofText?_text_of_literalsFinite expressible.finite expressible.accepted with
    refused | read
  · exact .inr refused
  · exact .inl ⟨_, read⟩

end Expressible

end Expr

/-- Derivatives stay inside the language. Any number of rounds of differentiation takes a tree with
finite literals and accepted calls to such a tree, whose text therefore is read back or refused for
a limit, and for nothing else. So does each folding constructor on such operands; a folded call
keeps its literals finite whatever the number of arguments, and is accepted exactly if that number
is. -/
theorem derivatives_stay_expressible :
    (∀ tree : Expr Binary64, tree.Expressible → ∀ order,
      (Expr.derivative^[order] tree).Expressible ∧
      ((∃ read : Expr Binary64, Expr.ofText? (Expr.derivative^[order] tree).text = .ok read) ∨
        ∃ position fault,
          Expr.ofText? (α := Binary64) (Expr.derivative^[order] tree).text =
            .error (.malformed position fault) ∧
          (fault = .nestedTooDeeply ∨ fault = .tooLong Reader.nodeLimit))) ∧
    (∀ operand : Expr Binary64, operand.Expressible → (Expr.negated operand).Expressible) ∧
    (∀ operator (left right : Expr Binary64), left.Expressible → right.Expressible →
      (Expr.combined operator left right).Expressible) ∧
    ∀ function (arguments : List (Expr Binary64)),
      (∀ argument ∈ arguments, argument.Expressible) →
        (Expr.applied function arguments).LiteralsFinite ∧
        ((Expr.applied function arguments).CallsAccepted ↔
          function.acceptsCount arguments.length = true) := by
  refine ⟨?_, fun _ expressible => expressible.negated, fun operator _ _ first second =>
    .combined operator first second, ?_⟩
  · intro tree expressible order
    have again := expressible.derivative_iterate order
    exact ⟨again, again.text_read⟩
  · intro function arguments expressible
    exact ⟨Expr.Expressible.literalsFinite_applied function expressible,
      Expr.Expressible.callsAccepted_applied_iff function expressible⟩

/-- The tree of `1e200*(1e200*x)`. -/
def hugeFactors : Expr Binary64 :=
  .binary .mul (.number ⟨0x6974E718D7D7625A⟩) (.binary .mul (.number ⟨0x6974E718D7D7625A⟩) .var)

/-- The slope is `1e200*1e200`, which stays a product because its value is not finite. -/
theorem derivatives_stay_expressible_hugeFactors :
    hugeFactors.Expressible ∧ hugeFactors.derivative.size = 3 ∧
      hugeFactors.derivative.Expressible := by
  have finite : hugeFactors.LiteralsFinite := by
    refine ⟨nofun, ?_, nofun, ?_, nofun⟩
    all_goals
      rintro _ ⟨⟩
      decide +kernel
  have expressible : hugeFactors.Expressible := ⟨finite, nofun, nofun, nofun, nofun, nofun⟩
  exact ⟨expressible, by decide +kernel,
    (derivatives_stay_expressible.1 hugeFactors expressible 1).1⟩

end Tangency
