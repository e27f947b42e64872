/-
Literals of a formula: how they are written and read. A literal type has a plain
text, a text with four places, the number nearest to a decimal, and the named
constants. Nothing here says that a text reads back to its literal; that law is
stated where it is used.
-/

import Tangency.Numeric.Shortest

namespace Tangency

class Numeral (α : Type u) where
  /-- Whether the literal has a minus, which its plain text may leave out. -/
  isNegative : α → Bool
  text : α → List Char
  /-- The text with a fixed number of places behind the point. -/
  textAtPlaces : Nat → α → List Char
  ofDecimal : Decimal → α
  pi : α
  euler : α

namespace Numeral

/-- Named constants, usable wherever a number is. -/
def constant? {α : Type u} [Numeral α] (word : String) : Option α :=
  if word == "pi" then some pi
  else if word == "e" then some euler
  else none

end Numeral

instance : Numeral Binary64 where
  isNegative := Binary64.isNegative
  text := Binary64.text
  textAtPlaces := Binary64.textAtPlaces
  ofDecimal := Decimal.toBinary64 false
  pi := ⟨0x400921FB54442D18⟩
  euler := ⟨0x4005BF0A8B145769⟩

end Tangency
