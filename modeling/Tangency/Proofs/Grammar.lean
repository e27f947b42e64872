/-
The grammar of formulas as phrases over tokens.

A phrase is a derivation that keeps its tokens.  It belongs to a rank, which is the
rule that it was derived by; the operators behind the first operand of a chain and
the arguments behind the first argument of a call are grades of their own.  A
phrase determines its tokens, its tree, the number of operators and operands that
are paid for, and its depth.

Phrases are independent of the readers and of both limits.  How many arguments a
function accepts is not a rule of the grammar; `CallsAccepted` says it of a phrase.
-/

import Tangency.Expr.Reading

namespace Tangency

/-- The rules of the grammar, loosest operators first. -/
inductive Rank where
  | sum
  | product
  | unary
  | power
  | operand
  deriving DecidableEq

inductive Chain where
  | additive
  | multiplicative
  deriving DecidableEq

namespace Chain

def operand : Chain → Rank
  | additive => .product
  | multiplicative => .unary

def operator? {α : Type} (chain : Chain) (token : Token α) : Option Operator :=
  match chain with
  | additive => Reader.additive? token
  | multiplicative => Reader.multiplicative? token

end Chain

/-- What a phrase may be: an expression of some rank, what continues a chain, or the arguments of a
call behind the first. -/
inductive Grade where
  | expr (rank : Rank)
  | links (chain : Chain)
  | arguments

/-- What a phrase of a grade stands for. What continues a chain builds on the tree to its left. -/
abbrev Grade.Meaning (α : Type) : Grade → Type
  | .expr _ => Expr α
  | .links _ => Expr α → Expr α
  | .arguments => List (Expr α)

/-- Derivations by the rules

  sum     := product (('+' | '-') product)*
  product := unary (('*' | '/') unary)*
  unary   := '-' unary | power
  power   := operand ('^' unary)?
  operand := NUMBER | 'x' | 'pi' | 'e' | NAME '(' sum (',' sum)* ')' | '(' sum ')'

where a name in front of a parenthesis is one of the table. -/
inductive Phrase (α : Type) [Numeral α] : Grade → Type where
  | sum (first : Phrase α (.expr .product)) (later : Phrase α (.links .additive)) :
      Phrase α (.expr .sum)
  | product (first : Phrase α (.expr .unary)) (later : Phrase α (.links .multiplicative)) :
      Phrase α (.expr .product)
  | noLink {chain : Chain} : Phrase α (.links chain)
  | link {chain : Chain} (sign : Token α) (operator : Operator)
      (joins : chain.operator? sign = some operator) (right : Phrase α (.expr chain.operand))
      (later : Phrase α (.links chain)) : Phrase α (.links chain)
  | minus (sign : Token α) (isMinus : sign.symbol? = some '-') (negated : Phrase α (.expr .unary)) :
      Phrase α (.expr .unary)
  | unsigned (power : Phrase α (.expr .power)) : Phrase α (.expr .unary)
  | unraised (operand : Phrase α (.expr .operand)) : Phrase α (.expr .power)
  | raised (base : Phrase α (.expr .operand)) (sign : Token α) (isCaret : sign.symbol? = some '^')
      (exponent : Phrase α (.expr .unary)) : Phrase α (.expr .power)
  | number (token : Token α) (literal : α) (isNumber : token.kind = .number literal) :
      Phrase α (.expr .operand)
  | var (token : Token α) (isName : token.kind = .name)
      (isVariable : token.text = Expr.variableName) : Phrase α (.expr .operand)
  | constant (token : Token α) (isName : token.kind = .name) (literal : α)
      (isConstant : Numeral.constant? token.text = some literal) : Phrase α (.expr .operand)
  | group (opening : Token α) (opens : opening.kind = .opening) (inner : Phrase α (.expr .sum))
      (closing : Token α) (closes : closing.kind = .closing) : Phrase α (.expr .operand)
  | call (name : Token α) (isName : name.kind = .name) (function : Elementary)
      (isFunction : Elementary.ofName? name.text = some function) (opening : Token α)
      (opens : opening.kind = .opening) (first : Phrase α (.expr .sum))
      (later : Phrase α .arguments) (closing : Token α) (closes : closing.kind = .closing) :
      Phrase α (.expr .operand)
  | noArgument : Phrase α .arguments
  | argument (comma : Token α) (separates : comma.kind = .comma) (next : Phrase α (.expr .sum))
      (later : Phrase α .arguments) : Phrase α .arguments

namespace Phrase

variable {α : Type} [Numeral α]

@[simp]
def tokens : {grade : Grade} → Phrase α grade → List (Token α)
  | _, sum first later => first.tokens ++ later.tokens
  | _, product first later => first.tokens ++ later.tokens
  | _, noLink => []
  | _, link sign _ _ right later => sign :: (right.tokens ++ later.tokens)
  | _, minus sign _ negated => sign :: negated.tokens
  | _, unsigned power => power.tokens
  | _, unraised operand => operand.tokens
  | _, raised base sign _ exponent => base.tokens ++ sign :: exponent.tokens
  | _, number token _ _ => [token]
  | _, var token _ _ => [token]
  | _, constant token _ _ _ => [token]
  | _, group opening _ inner closing _ => opening :: (inner.tokens ++ [closing])
  | _, call name _ _ _ opening _ first later closing _ =>
    name :: opening :: (first.tokens ++ (later.tokens ++ [closing]))
  | _, noArgument => []
  | _, argument comma _ next later => comma :: (next.tokens ++ later.tokens)

/-- The tree of a phrase. A group leaves no trace in it, and nothing is folded. -/
@[simp]
def meaning : {grade : Grade} → Phrase α grade → grade.Meaning α
  | _, sum first later => later.meaning first.meaning
  | _, product first later => later.meaning first.meaning
  | _, noLink => fun left => left
  | _, link _ operator _ right later =>
    fun left => later.meaning (.binary operator left right.meaning)
  | _, minus _ _ negated => .neg negated.meaning
  | _, unsigned power => power.meaning
  | _, unraised operand => operand.meaning
  | _, raised base _ _ exponent => .binary .pow base.meaning exponent.meaning
  | _, number _ literal _ => .number literal
  | _, var _ _ _ => .var
  | _, constant _ _ literal _ => .number literal
  | _, group _ _ inner _ _ => inner.meaning
  | _, call _ _ function _ _ _ first later _ _ => .call function (first.meaning :: later.meaning)
  | _, noArgument => []
  | _, argument _ _ next later => next.meaning :: later.meaning

/-- Number of operators and operands, a call and a group counting one besides what they hold. -/
@[simp]
def nodes : {grade : Grade} → Phrase α grade → Nat
  | _, sum first later => first.nodes + later.nodes
  | _, product first later => first.nodes + later.nodes
  | _, noLink => 0
  | _, link _ _ _ right later => 1 + right.nodes + later.nodes
  | _, minus _ _ negated => 1 + negated.nodes
  | _, unsigned power => power.nodes
  | _, unraised operand => operand.nodes
  | _, raised base _ _ exponent => base.nodes + (1 + exponent.nodes)
  | _, number _ _ _ => 1
  | _, var _ _ _ => 1
  | _, constant _ _ _ _ => 1
  | _, group _ _ inner _ _ => 1 + inner.nodes
  | _, call _ _ _ _ _ _ first later _ _ => 1 + (first.nodes + later.nodes)
  | _, noArgument => 0
  | _, argument _ _ next later => next.nodes + later.nodes

@[simp]
def groups : {grade : Grade} → Phrase α grade → Nat
  | _, sum first later => first.groups + later.groups
  | _, product first later => first.groups + later.groups
  | _, noLink => 0
  | _, link _ _ _ right later => right.groups + later.groups
  | _, minus _ _ negated => negated.groups
  | _, unsigned power => power.groups
  | _, unraised operand => operand.groups
  | _, raised base _ _ exponent => base.groups + exponent.groups
  | _, number _ _ _ => 0
  | _, var _ _ _ => 0
  | _, constant _ _ _ _ => 0
  | _, group _ _ inner _ _ => 1 + inner.groups
  | _, call _ _ _ _ _ _ first later _ _ => first.groups + later.groups
  | _, noArgument => 0
  | _, argument _ _ next later => next.groups + later.groups

/-- How deeply a phrase is nested. An expression counts one, and a group, an argument, the operand
of a minus and an exponent each count one more than what they stand in. -/
@[simp]
def depth : {grade : Grade} → Phrase α grade → Nat
  | _, sum first later => max first.depth later.depth
  | _, product first later => max first.depth later.depth
  | _, noLink => 0
  | _, link _ _ _ right later => max right.depth later.depth
  | _, minus _ _ negated => 1 + negated.depth
  | _, unsigned power => power.depth
  | _, unraised operand => operand.depth
  | _, raised base _ _ exponent => max base.depth (1 + exponent.depth)
  | _, number _ _ _ => 1
  | _, var _ _ _ => 1
  | _, constant _ _ _ _ => 1
  | _, group _ _ inner _ _ => 1 + inner.depth
  | _, call _ _ _ _ _ _ first later _ _ => 1 + max first.depth later.depth
  | _, noArgument => 0
  | _, argument _ _ next later => max next.depth later.depth

@[simp]
def CallsAccepted : {grade : Grade} → Phrase α grade → Prop
  | _, sum first later => first.CallsAccepted ∧ later.CallsAccepted
  | _, product first later => first.CallsAccepted ∧ later.CallsAccepted
  | _, noLink => True
  | _, link _ _ _ right later => right.CallsAccepted ∧ later.CallsAccepted
  | _, minus _ _ negated => negated.CallsAccepted
  | _, unsigned power => power.CallsAccepted
  | _, unraised operand => operand.CallsAccepted
  | _, raised base _ _ exponent => base.CallsAccepted ∧ exponent.CallsAccepted
  | _, number _ _ _ => True
  | _, var _ _ _ => True
  | _, constant _ _ _ _ => True
  | _, group _ _ inner _ _ => inner.CallsAccepted
  | _, call _ _ function _ _ _ first later _ _ =>
    first.CallsAccepted ∧ later.CallsAccepted ∧
      function.acceptsCount (later.meaning.length + 1) = true
  | _, noArgument => True
  | _, argument _ _ next later => next.CallsAccepted ∧ later.CallsAccepted

/-! ### Counts -/

def Accounted : {grade : Grade} → Phrase α grade → Prop
  | .expr _, phrase => phrase.meaning.size + phrase.groups = phrase.nodes
  | .links _, phrase =>
    ∀ left, (phrase.meaning left).size + phrase.groups = left.size + phrase.nodes
  | .arguments, phrase => Expr.sizeAll phrase.meaning + phrase.groups = phrase.nodes

/-- The tree of a phrase has a node for each operator and operand that is not a group, and no
other. -/
theorem accounted {grade : Grade} (phrase : Phrase α grade) : phrase.Accounted := by
  induction phrase with
  | sum first later ihFirst ihLater =>
    have laterSize := ihLater first.meaning
    simp only [Accounted, meaning, nodes, groups] at *
    omega
  | product first later ihFirst ihLater =>
    have laterSize := ihLater first.meaning
    simp only [Accounted, meaning, nodes, groups] at *
    omega
  | noLink => exact fun left => rfl
  | link sign operator joins right later ihRight ihLater =>
    intro left
    have laterSize := ihLater (.binary operator left right.meaning)
    simp only [Accounted, meaning, nodes, groups, Expr.size] at *
    omega
  | minus sign isMinus negated ih =>
    simp only [Accounted, meaning, nodes, groups, Expr.size] at *
    omega
  | unsigned power ih => exact ih
  | unraised operand ih => exact ih
  | raised base sign isCaret exponent ihBase ihExponent =>
    simp only [Accounted, meaning, nodes, groups, Expr.size] at *
    omega
  | number => rfl
  | var => rfl
  | constant => rfl
  | group opening opens inner closing closes ih =>
    simp only [Accounted, meaning, nodes, groups] at *
    omega
  | call name isName function isFunction opening opens first later closing closes ihFirst ihLater =>
    simp only [Accounted, meaning, nodes, groups, Expr.size, Expr.sizeAll] at *
    omega
  | noArgument => rfl
  | argument comma separates next later ihNext ihLater =>
    simp only [Accounted, meaning, nodes, groups, Expr.sizeAll] at *
    omega

theorem nodes_pos {rank : Rank} (phrase : Phrase α (.expr rank)) : 0 < phrase.nodes := by
  have sizes : phrase.meaning.size + phrase.groups = phrase.nodes := phrase.accounted
  have treePos := phrase.meaning.size_pos
  omega

end Phrase

end Tangency
