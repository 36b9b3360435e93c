import PriceAction.Decimal.Shortest
import PriceAction.Decimal.Fixed

/-!
# Laying out digits

A `Notation` says how the digits of a number become text: where positional writing ends, and
whether a whole number shows a point.
-/

namespace PriceAction.Decimal

/-- The decisions of one way to write numbers. -/
structure Layout where
  /-- Positional from `10 ^ from?` on, without a bound if absent. -/
  least? : Option Int
  /-- Positional below `10 ^ below?`, without a bound if absent. -/
  below? : Option Int
  /-- Whether a whole number ends in `.0`. -/
  pointZero : Bool

/-- Never an exponent, and no point in a whole number. -/
def Layout.plain : Layout := ⟨none, none, false⟩

/-- Positional from `0.00001` up to below `10 ^ 16`, otherwise with an exponent; a point or an
exponent always tells the number from a whole one. -/
def Layout.data : Layout := ⟨some (-5), some 16, true⟩

namespace Layout

/-- The digits with the point where their exponent puts it. -/
def positional (l : Layout) (d : Digits) : String :=
  let text := toString d.digits
  if 0 ≤ d.exponent then
    text ++ "".pushn '0' d.exponent.toNat ++ (if l.pointZero then ".0" else "")
  else
    let places := (-d.exponent).toNat
    let shown := padded (places + 1) d.digits
    String.ofList (shown.toList.take (shown.length - places)) ++ "." ++
      String.ofList (shown.toList.drop (shown.length - places))

/-- One digit, the point and the rest of the digits, and the exponent of the first digit. -/
def scientific (d : Digits) : String :=
  let text := (toString d.digits).toList
  let exponent := d.exponent + text.length - 1
  let mantissa := String.ofList (text.take 1) ++
    (if text.length ≤ 1 then "" else "." ++ String.ofList (text.drop 1))
  mantissa ++ "e" ++ (if exponent < 0 then "-" else "+") ++ toString exponent.natAbs

/-- The text of a magnitude. -/
def magnitude (l : Layout) (d : Digits) : String :=
  let first := d.exponent + (toString d.digits).length - 1
  let small : Bool := match l.least? with
    | some least => decide (first < least)
    | none => false
  let big : Bool := match l.below? with
    | some below => decide (below ≤ first)
    | none => false
  if d.digits ≠ 0 && (small || big) then scientific d else l.positional d

/-- The text of a floating-point number, with the fewest digits that read back. -/
def float (l : Layout) (x : Float) : String :=
  match Parts.ofFloat x with
  | .notANumber => "NaN"
  | .infinite false => "inf"
  | .infinite true => "-inf"
  | .finite negative b => (if negative then "-" else "") ++ l.magnitude b.shortest

end Layout

end PriceAction.Decimal
