import PriceAction.Decimal.Scaled
import PriceAction.Json.Value
import PriceAction.Power
import PriceAction.Text.Blank

/-!
# Numbers in data texts

A number is an optional minus, whole digits without a leading zero, and optionally a fraction and
an exponent. It stands for a whole number if it is spelled as one, and for a real otherwise.
-/

namespace PriceAction.Json

open Text (isDigit number)

/-- The parts of a number as it is written. -/
structure Numeral where
  negative : Bool
  digits : List Char
  fraction? : Option (List Char)
  exponent? : Option Int

/-- How reals are read. -/
inductive Precision where
  /-- By scaling the digits, as data files are read. The last place may be off. -/
  | scaled
  /-- As the nearest floating-point number, so that a real that was written is read back. -/
  | nearest

namespace Numeral

/-- The size of the number as a real, unless it is infinite. -/
def size? (p : Precision) (n : Numeral) : Option Float :=
  let fraction := n.fraction?.getD []
  let exponent := n.exponent?.getD 0
  match p with
  | .scaled => Decimal.scaledDigits? n.digits fraction exponent
  | .nearest => Decimal.nearest? (number (n.digits ++ fraction)) (exponent - fraction.length)

/-- The value as a real; one past every real cannot be read. -/
def real (p : Precision) (n : Numeral) : Json :=
  match n.size? p with
  | some x => .real (if n.negative then -x else x)
  | none => .unreadable

/-- The value of a numeral. Without a fraction and an exponent it is a whole number if it lies
between `-2 ^ 63` and `2 ^ 64`; a negative zero is a real. -/
def value (p : Precision) (n : Numeral) : Json :=
  let whole := number n.digits
  match n.fraction?, n.exponent? with
  | none, none =>
    if n.negative then
      if whole = 0 ∨ pow2 63 < whole then n.real p else .whole (-(whole : Int))
    else if whole < pow2 64 then .whole whole
    else n.real p
  | _, _ => n.real p

end Numeral

/-- At least one digit. -/
def someDigits? (cs : List Char) : Option (List Char × List Char) :=
  let taken := cs.takeWhile isDigit
  if taken.isEmpty then none else some (taken, cs.drop taken.length)

/-- The exponent after its mark. -/
def exponent? : List Char → Option (Int × List Char)
  | '+' :: rest => (someDigits? rest).map fun (ds, rest) => ((number ds : Int), rest)
  | '-' :: rest => (someDigits? rest).map fun (ds, rest) => (-(number ds : Int), rest)
  | cs => (someDigits? cs).map fun (ds, rest) => ((number ds : Int), rest)

/-- A numeral at the front of the text. -/
def numeral? (cs : List Char) : Option (Numeral × List Char) := do
  let (negative, rest) := match cs with
    | '-' :: rest => (true, rest)
    | rest => (false, rest)
  let (digits, rest) ← someDigits? rest
  if digits.length ≠ 1 ∧ digits.head? = some '0' then none
  let (fraction, rest) ← match rest with
    | '.' :: rest => (someDigits? rest).map fun (ds, rest) => (some ds, rest)
    | rest => some (none, rest)
  let (exponent, rest) ← match rest with
    | 'e' :: rest => (exponent? rest).map fun (e, rest) => (some e, rest)
    | 'E' :: rest => (exponent? rest).map fun (e, rest) => (some e, rest)
    | rest => some (none, rest)
  some (⟨negative, digits, fraction, exponent⟩, rest)

end PriceAction.Json
