/-
Whole powers of the bases in which numbers are kept and written. Exponents are
natural numbers; a scale of either sign is carried by a numerator and a
denominator, one of which has the exponent zero.
-/

namespace Tangency

def twoTo (exponent : Nat) : Nat := Nat.pow 2 exponent

def fiveTo (exponent : Nat) : Nat := Nat.pow 5 exponent

def tenTo (exponent : Nat) : Nat := Nat.pow 10 exponent

theorem twoTo_succ (exponent : Nat) : twoTo (exponent + 1) = twoTo exponent * 2 := rfl

theorem tenTo_succ (exponent : Nat) : tenTo (exponent + 1) = tenTo exponent * 10 := rfl

theorem twoTo_pos (exponent : Nat) : 0 < twoTo exponent := Nat.pow_pos (by decide)

theorem fiveTo_pos (exponent : Nat) : 0 < fiveTo exponent := Nat.pow_pos (by decide)

theorem tenTo_pos (exponent : Nat) : 0 < tenTo exponent := Nat.pow_pos (by decide)

end Tangency
