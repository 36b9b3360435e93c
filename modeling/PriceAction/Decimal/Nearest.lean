import PriceAction.Decimal.Fixed

/-!
# The nearest floating-point number

A decimal stands for the floating-point number nearest to it. The exact value is rounded once, to
as many binary places as the number can have, a half going to the even neighbour.
-/

namespace PriceAction.Decimal

/-- The exponent of the last binary place of a floating-point number about as large as the
quotient: with it the significand has 53 bits, or fewer next to zero. -/
def lastPlace (num den : Nat) : Int :=
  -- The quotient lies above `2 ^ (guess - 1)` and below `2 ^ (guess + 1)`.
  let guess : Int := (num.log2 : Int) - den.log2
  let first := if den * pow2 guess.toNat ≤ num * pow2 (-guess).toNat then guess else guess - 1
  max (first - 52) (-1074)

/-- The bits of the floating-point number nearest to a quotient. A significand that is rounded up
to the next power of two carries into the bits of the exponent, which is what it should do. -/
def nearestBits (num den : Nat) : Nat :=
  if num = 0 then 0
  else
    let place := lastPlace num den
    (place + 1074).toNat * pow2 52 +
      roundHalfEven (num * pow2 (-place).toNat) (den * pow2 place.toNat)

/-- The floating-point number nearest to `digits * 10 ^ exponent`, unless it is infinite. -/
def nearest? (digits : Nat) (exponent : Int) : Option Float :=
  if digits = 0 then some 0.0
  else if 309 < exponent then none
  else if exponent < -400 - (digits.log2 : Int) then some 0.0
  else
    let bits := nearestBits (digits * pow10 exponent.toNat) (pow10 (-exponent).toNat)
    if bits < 2047 * pow2 52 then some (Float.ofBits bits.toUInt64) else none

/-- A whole number as a floating-point number. -/
def nearestInt? (n : Int) : Option Float :=
  (nearest? n.natAbs 0).map fun x => if n < 0 then -x else x

end PriceAction.Decimal
