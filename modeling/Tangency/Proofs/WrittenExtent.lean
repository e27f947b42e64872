/-
How much a text asks of a reader.

The extent of a phrase is what reading limits: how many operators and operands there are, groups
among the operands, and how deeply they are nested.  The extent of a tree is found without its
text.  Each pair of parentheses that writing puts is a node and a level in it.
-/

import Tangency.Expr.Written
import Tangency.Proofs.Grammar

namespace Tangency

@[ext]
structure Extent where
  nodes : Nat
  depth : Nat

namespace Extent

def none : Extent := ⟨0, 0⟩

def single : Extent := ⟨1, 1⟩

/-- An operator between operands, which is a node and no level. -/
def operator : Extent := ⟨1, 0⟩

def joined (first later : Extent) : Extent :=
  ⟨first.nodes + later.nodes, max first.depth later.depth⟩

/-- One node and one level around what is inside. -/
def deeper (inner : Extent) : Extent := ⟨inner.nodes + 1, inner.depth + 1⟩

def enclosedIf (enclose : Bool) (inner : Extent) : Extent := if enclose then inner.deeper else inner

theorem joined_none (extent : Extent) : extent.joined none = extent :=
  Extent.ext (Nat.add_zero _) (Nat.max_zero _)

theorem none_joined (extent : Extent) : none.joined extent = extent :=
  Extent.ext (Nat.zero_add _) (Nat.zero_max _)

theorem joined_assoc (first second third : Extent) :
    (first.joined second).joined third = first.joined (second.joined third) :=
  Extent.ext (Nat.add_assoc _ _ _) (Nat.max_assoc _ _ _)

structure Le (smaller larger : Extent) : Prop where
  nodes : smaller.nodes ≤ larger.nodes
  depth : smaller.depth ≤ larger.depth

namespace Le

variable {first first' later later' : Extent}

theorem refl (extent : Extent) : extent.Le extent := ⟨Nat.le_refl _, Nat.le_refl _⟩

theorem trans {between : Extent} (low : first.Le between) (high : between.Le later) :
    first.Le later :=
  ⟨Nat.le_trans low.nodes high.nodes, Nat.le_trans low.depth high.depth⟩

theorem joined (firstLe : first.Le first') (laterLe : later.Le later') :
    (first.joined later).Le (first'.joined later') :=
  ⟨Nat.add_le_add firstLe.nodes laterLe.nodes, by
    have firstDepth := firstLe.depth
    have laterDepth := laterLe.depth
    simp only [Extent.joined]
    omega⟩

theorem deeper (innerLe : first.Le later) : first.deeper.Le later.deeper :=
  ⟨Nat.succ_le_succ innerLe.nodes, Nat.succ_le_succ innerLe.depth⟩

end Le

theorem le_deeper (inner : Extent) : inner.Le inner.deeper := ⟨Nat.le_succ _, Nat.le_succ _⟩

end Extent

def Reader.limits : Extent := ⟨nodeLimit, depthLimit⟩

namespace Phrase

variable {α : Type} [Numeral α]

def extent {grade : Grade} (phrase : Phrase α grade) : Extent := ⟨phrase.nodes, phrase.depth⟩

theorem extent_link {chain : Chain} (sign : Token α) {operator : Operator}
    (joins : chain.operator? sign = some operator) (right : Phrase α (.expr chain.operand))
    (later : Phrase α (.links chain)) :
    (link sign operator joins right later).extent =
      Extent.operator.joined (right.extent.joined later.extent) :=
  Extent.ext (Nat.add_assoc _ _ _) (Nat.zero_max _).symm

theorem extent_minus (sign : Token α) (isMinus : sign.symbol? = some '-')
    (negated : Phrase α (.expr .unary)) :
    (minus sign isMinus negated).extent = negated.extent.deeper :=
  Extent.ext (Nat.add_comm _ _) (Nat.add_comm _ _)

theorem extent_raised (base : Phrase α (.expr .operand)) (sign : Token α)
    (isCaret : sign.symbol? = some '^') (exponent : Phrase α (.expr .unary)) :
    (raised base sign isCaret exponent).extent = base.extent.joined exponent.extent.deeper :=
  Extent.ext (congrArg (base.nodes + ·) (Nat.add_comm _ _))
    (congrArg (max base.depth ·) (Nat.add_comm _ _))

theorem extent_group (opening : Token α) (opens : opening.kind = .opening)
    (inner : Phrase α (.expr .sum)) (closing : Token α) (closes : closing.kind = .closing) :
    (group opening opens inner closing closes).extent = inner.extent.deeper :=
  Extent.ext (Nat.add_comm _ _) (Nat.add_comm _ _)

theorem extent_call (name : Token α) (isName : name.kind = .name) {function : Elementary}
    (isFunction : Elementary.ofName? name.text = some function) (opening : Token α)
    (opens : opening.kind = .opening) (first : Phrase α (.expr .sum))
    (later : Phrase α .arguments) (closing : Token α) (closes : closing.kind = .closing) :
    (call name isName function isFunction opening opens first later closing closes).extent =
      (first.extent.joined later.extent).deeper :=
  Extent.ext (Nat.add_comm _ _) (Nat.add_comm _ _)

theorem extent_argument (comma : Token α) (separates : comma.kind = .comma)
    (next : Phrase α (.expr .sum)) (later : Phrase α .arguments) :
    (argument comma separates next later).extent = next.extent.joined later.extent := rfl

end Phrase

namespace Expr

variable {α : Type} [Numeral α]

mutual

/-- The extent of the text of a tree, parentheses included. -/
def writtenExtent : Expr α → Extent
  | number literal => if Numeral.isNegative literal then Extent.single.deeper else .single
  | var => .single
  | neg operand => (operand.writtenExtent.enclosedIf (operand.level ≤ negationLevel)).deeper
  | binary operator left right =>
    let leftExtent := left.writtenExtent.enclosedIf (enclosesLeft operator left.level)
    let rightExtent := right.writtenExtent.enclosedIf (enclosesRight operator right.level)
    match operator with
    | .pow => leftExtent.joined rightExtent.deeper
    | _ => leftExtent.joined (Extent.operator.joined rightExtent)
  | call _ arguments => (writtenExtentAll arguments).deeper

def writtenExtentAll : List (Expr α) → Extent
  | [] => .none
  | argument :: arguments => argument.writtenExtent.joined (writtenExtentAll arguments)

end

end Expr

end Tangency
