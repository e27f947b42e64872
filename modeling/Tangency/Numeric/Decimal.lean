/-
Decimal numbers as written: a run of digits scaled by a power of ten. Covered are
the plain positional text, the nearest double, and the number form
`digits [. digits] [(e|E) [+|-] digits]` at the front of a text. The form is read
greedily; an exponent mark that no digit follows is left where it stands.
-/

import Tangency.Numeric.Binary64

namespace Tangency

structure Decimal where
  digits : Nat
  exponent : Int
  deriving DecidableEq, Repr

namespace Decimal

def positional (value : Decimal) : List Char :=
  let written := Nat.toDigits 10 value.digits
  let places := (-value.exponent).toNat
  if places = 0 then written ++ List.replicate value.exponent.toNat '0'
  else if places < written.length then
    written.take (written.length - places) ++ '.' :: written.drop (written.length - places)
  else
    '0' :: '.' :: (List.replicate (places - written.length) '0' ++ written)

/-- A quotient to a fixed number of places, a tie going to the even last digit. -/
def atPlaces (places numerator denominator : Nat) : Decimal :=
  ⟨Binary64.nearestEven (numerator * tenTo places) denominator, -places⟩

/-- Bits of the magnitude nearest to the number. A number of at least `10 ^ 309` is past every
finite double and one below `10 ^ (-324)` is nearer to zero than to any other, so neither needs
its power of ten computed. -/
def nearestMagnitudeBits (value : Decimal) : Nat :=
  let order := value.exponent + (Nat.toDigits 10 value.digits).length
  if value.digits = 0 ∨ order ≤ -324 then 0
  else if 309 < order then Binary64.infinityBits
  else
    Binary64.nearestMagnitudeBits (value.digits * tenTo value.exponent.toNat)
      (tenTo (-value.exponent).toNat)

def toBinary64 (negative : Bool) (value : Decimal) : Binary64 :=
  Binary64.ofMagnitudeBits negative value.nearestMagnitudeBits

/-! ### Reading -/

def ofDigits (digits : List Char) : Nat :=
  digits.foldl (fun total digit => 10 * total + (digit.toNat - '0'.toNat)) 0

/-- A number form found at the front of a text: its characters, those behind it, and the number,
which is missing when no digit stands before the exponent. -/
structure Spelling where
  spelled : List Char
  rest : List Char
  value? : Option Decimal

def splitSign (text : List Char) : List Char × List Char :=
  match text with
  | '+' :: behind => (['+'], behind)
  | '-' :: behind => (['-'], behind)
  | _ => ([], text)

def signedDigits (sign digits : List Char) : Int :=
  if sign = ['-'] then -(ofDigits digits : Int) else ofDigits digits

/-- The exponent part at the front of a text: its characters, its value and the rest. -/
def splitExponent (text : List Char) : List Char × Int × List Char :=
  match text with
  | mark :: behind =>
    if mark = 'e' ∨ mark = 'E' then
      let sign := (splitSign behind).1
      let digits := (splitSign behind).2.takeWhile Char.isDigit
      if digits.isEmpty then ([], 0, text)
      else
        (mark :: (sign ++ digits), signedDigits sign digits,
          (splitSign behind).2.dropWhile Char.isDigit)
    else ([], 0, text)
  | [] => ([], 0, [])

def splitFraction (text : List Char) : List Char × List Char :=
  match text with
  | '.' :: behind => ('.' :: behind.takeWhile Char.isDigit, behind.dropWhile Char.isDigit)
  | _ => ([], text)

/-- The longest number form at the front of a text. -/
def split (text : List Char) : Spelling :=
  let whole := text.takeWhile Char.isDigit
  let fraction := splitFraction (text.dropWhile Char.isDigit)
  let exponent := splitExponent fraction.2
  let places := fraction.1.drop 1
  { spelled := whole ++ (fraction.1 ++ exponent.1)
    rest := exponent.2.2
    value? :=
      if (whole ++ places).isEmpty then none
      else some ⟨ofDigits (whole ++ places), exponent.2.1 - places.length⟩ }

theorem splitSign_append (text : List Char) : (splitSign text).1 ++ (splitSign text).2 = text := by
  unfold splitSign
  split <;> rfl

theorem splitExponent_append (text : List Char) :
    (splitExponent text).1 ++ (splitExponent text).2.2 = text := by
  unfold splitExponent
  split
  · split
    · simp only
      split
      · rfl
      · simp [List.takeWhile_append_dropWhile, splitSign_append]
    · rfl
  · rfl

theorem splitFraction_append (text : List Char) :
    (splitFraction text).1 ++ (splitFraction text).2 = text := by
  unfold splitFraction
  split
  · simp [List.takeWhile_append_dropWhile]
  · rfl

theorem split_append (text : List Char) : (split text).spelled ++ (split text).rest = text := by
  simp only [split, List.append_assoc]
  rw [splitExponent_append, splitFraction_append, List.takeWhile_append_dropWhile]

theorem split_spelled_ne_nil {c : Char} (behind : List Char)
    (starts : (c.isDigit || c == '.') = true) : (split (c :: behind)).spelled ≠ [] := by
  rcases Bool.or_eq_true_iff.mp starts with digit | point
  · simp [split, digit]
  · have isPoint : c = '.' := eq_of_beq point
    subst isPoint
    have notDigit : Char.isDigit '.' = false := by decide
    simp [split, notDigit, splitFraction]

end Decimal

end Tangency
