/-
Everything that can go wrong with a calculation, as causes, and the wording of
each. A cause in the text of a formula carries the position, counted in
characters, at which reading stopped. A value that is missing at a sample point
is not a failure; it becomes a gap.
-/

import Tangency.Elementary
import Tangency.Numeral

namespace Tangency

inductive Order where
  | value
  | slope
  | curvature
  deriving DecidableEq, Repr

def Order.label : Order → String
  | .value => "f"
  | .slope => "f'"
  | .curvature => "f''"

inductive Found where
  | endOfInput
  | token (text : String)
  deriving DecidableEq, Repr

def Found.description : Found → String
  | .endOfInput => "end of input"
  | .token text => "'" ++ text ++ "'"

inductive Fault where
  | unexpectedCharacter (character : Char)
  | malformedNumber (spelled : String)
  | noTokens
  | nestedTooDeeply
  | tooLong (limit : Nat)
  | operandMissing (found : Found)
  | closingMissing (found : Found)
  | trailing (found : Found)
  | bareFunction (name : String)
  | unknownIdentifier (name : String)
  | wrongCount (function : Elementary) (given : Nat)
  deriving DecidableEq, Repr

def Fault.message : Fault → String
  | .unexpectedCharacter character => "unexpected character '" ++ character.toString ++ "'"
  | .malformedNumber spelled => "malformed number '" ++ spelled ++ "'"
  | .noTokens => "empty token stream"
  | .nestedTooDeeply => "expression nested too deeply"
  | .tooLong limit =>
    "expression is too long (more than " ++ limit.repr ++ " terms and operators)"
  | .operandMissing found => "unexpected " ++ found.description ++ ", expected an operand"
  | .closingMissing found => "expected ')', found " ++ found.description
  | .trailing found => "unexpected " ++ found.description ++ " after complete expression"
  | .bareFunction name => "function '" ++ name ++ "' must be followed by '('"
  | .unknownIdentifier name => "unknown identifier '" ++ name ++ "'"
  | .wrongCount function given =>
    "function '" ++ function.name ++ "' expects " ++ function.countText ++ ", got " ++ given.repr

inductive SettingsFault where
  | minHalfWidth
  | widthScale
  | stepsPerSide
  | flatTolerance
  deriving DecidableEq, Repr

def SettingsFault.reason : SettingsFault → String
  | .minHalfWidth => "min_half_width must be positive and finite"
  | .widthScale => "width_scale must be non-negative and finite"
  | .stepsPerSide => "steps_per_side must be at least 1"
  | .flatTolerance => "flat_tolerance must be non-negative and finite"

inductive Failure (α : Type u) where
  | malformed (position : Nat) (fault : Fault)
  | unknownFunction (name : String)
  | notFinite (order : Order) (anchor : α)
  | anchorNotFinite (anchor : α)
  | badSettings (fault : SettingsFault)
  | tooComplex (order : Order) (size limit : Nat)
  deriving Repr

namespace Failure

variable {α : Type u}

def message [Numeral α] : Failure α → String
  | malformed position fault =>
    "Syntax error at position " ++ position.repr ++ ": " ++ fault.message
  | unknownFunction name => "Unknown function: " ++ name
  | notFinite order anchor =>
    order.label ++ "(" ++ String.ofList (Numeral.text anchor) ++ ") is not a finite number"
  | anchorNotFinite anchor =>
    "Anchor point x0 must be finite (got " ++ String.ofList (Numeral.text anchor) ++ ")"
  | badSettings fault => "Invalid settings: " ++ fault.reason
  | tooComplex order size limit =>
    order.label ++ "(x) is too large to evaluate (" ++ size.repr ++ " nodes, limit " ++
      limit.repr ++ ")"

/-- Where in the text of the formula the cause lies, if it lies there. -/
def position? : Failure α → Option Nat
  | malformed position _ => some position
  | _ => none

end Failure

end Tangency
