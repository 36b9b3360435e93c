import PriceAction.Decimal.Nearest
import PriceAction.Text.Blank

/-!
# Scaled digits

A quick reading of a decimal. The digits that fit a word of 64 bits are rounded to a floating-point
number, and that number is multiplied or divided by a power of ten, which is rounded itself. Each
step rounds, so the result may lie next to the floating-point number nearest to the decimal.
-/

namespace PriceAction.Decimal

/-- The number that `n` becomes with the digits that follow it, as far as it stays below
`2 ^ 64`, and the digits that are left. -/
def takeWord (n : Nat) : List Char → Nat × List Char
  | [] => (n, [])
  | c :: cs =>
    let next := 10 * n + Text.digitValue c
    if next < pow2 64 then takeWord next cs else (n, c :: cs)

/-- The floating-point number nearest to a whole number that is not past all of them. -/
def ofWhole (n : Nat) : Float :=
  Float.ofBits (nearestBits n 1).toUInt64

/-- The floating-point number nearest to `10 ^ n`, for `n` up to 308. -/
def tenTo (n : Nat) : Float :=
  ofWhole (pow10 n)

/-- A word times `10 ^ exponent`, unless it is infinite. A negative exponent divides, by `1e308`
first if there is no power that large, and one below `-616` leaves nothing of any word. -/
def scaled? (word : Nat) (exponent : Int) : Option Float :=
  if word = 0 then some 0.0
  else if 308 < exponent then none
  else if 0 ≤ exponent then
    let x := ofWhole word * tenTo exponent.toNat
    if x.isFinite then some x else none
  else if -308 ≤ exponent then some (ofWhole word / tenTo (-exponent).toNat)
  else if -616 ≤ exponent then some (ofWhole word / tenTo 308 / tenTo (-exponent - 308).toNat)
  else some 0.0

/-- The reading of `whole.fraction * 10 ^ exponent`. From the first whole digit that does not fit
the word they all count as zeros, and the first such digit of the fraction ends it. -/
def scaledDigits? (whole fraction : List Char) (exponent : Int) : Option Float :=
  let (word, wholeLeft) := takeWord 0 whole
  let (word, fractionLeft) := takeWord word fraction
  let places : Int := (fraction.length : Int) - fractionLeft.length
  scaled? word (exponent + wholeLeft.length - places)

end PriceAction.Decimal
