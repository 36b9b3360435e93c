import PriceAction.Decimal.Binary

/-!
# The fewest digits that read back

A floating-point number stands for every real number that rounds to it. `Binary.shortest` looks
for the decimal of fewest digits in that interval, and among those of equal length for the one
nearest to the number itself. All of it is whole-number arithmetic.
-/

namespace PriceAction.Decimal

/-- The decimal `digits * 10 ^ exponent`. -/
structure Digits where
  digits : Nat
  exponent : Int
deriving Repr, DecidableEq

namespace Binary

/-- Whether the decimal rounds to the number. With all values in units of a quarter of the gap
above, the interval runs from two (one below a power of two) under the number to two above it;
its ends belong to it exactly when the significand is even. -/
def readsBack (b : Binary) (d : Digits) : Bool :=
  let scale := b.exponent - 2
  let decimal := d.digits * pow10 d.exponent.toNat * pow2 (-scale).toNat
  let unit := pow10 (-d.exponent).toNat * pow2 scale.toNat
  let lower := (4 * b.significand - (if b.narrowBelow then 1 else 2)) * unit
  let upper := (4 * b.significand + 2) * unit
  if b.significand % 2 = 0 then lower ≤ decimal && decimal ≤ upper
  else lower < decimal && decimal < upper

/-- The number of decimal digits of a positive whole number, at most `fuel`. -/
def digitCount : (fuel : Nat) → Nat → Nat
  | 0, _ => 0
  | fuel + 1, n => if n = 0 then 0 else digitCount fuel (n / 10) + 1

/-- The least `k` with the number below `10 ^ k`. -/
def magnitude (b : Binary) : Int :=
  let whole := b.numerator / b.denominator
  if whole ≠ 0 then digitCount 310 whole
  else
    -- The number is `1 / r` at least, where `r` is the rounded-down reciprocal.
    let reciprocal := b.denominator / b.numerator
    let k : Int := 1 - (digitCount 330 reciprocal : Int)
    if b.numerator * pow10 (-k).toNat < b.denominator then k else k + 1

/-- The two neighbours of the number on the grid of multiples of `10 ^ exponent` that read back,
the nearer first choice, an even last digit on a tie. -/
def onGrid (b : Binary) (exponent : Int) : Option Digits :=
  let num := b.numerator * pow10 (-exponent).toNat
  let den := b.denominator * pow10 exponent.toNat
  let below := num / den
  let rest := num % den
  let low : Digits := ⟨below, exponent⟩
  let high : Digits := ⟨below + 1, exponent⟩
  match decide (below ≠ 0) && b.readsBack low, b.readsBack high with
  | true, true =>
    if 2 * rest < den ∨ (2 * rest = den ∧ below % 2 = 0) then some low else some high
  | true, false => some low
  | false, true => some high
  | false, false => none

/-- Drops the zeros at the end of the digits. -/
def stripZeros : (fuel : Nat) → Digits → Digits
  | 0, d => d
  | fuel + 1, d =>
    if d.digits ≠ 0 ∧ d.digits % 10 = 0 then stripZeros fuel ⟨d.digits / 10, d.exponent + 1⟩ else d

/-- The decimal of fewest digits that reads back as the number. -/
def shortest (b : Binary) : Digits :=
  if b.significand = 0 then ⟨0, 0⟩
  else
    let k := b.magnitude
    let found := (List.range 17).findSome? fun n => b.onGrid (k - ((n + 1 : Nat) : Int))
    stripZeros 20 (found.getD ⟨b.numerator * pow10 1100 / b.denominator, -1100⟩)

end Binary

end PriceAction.Decimal
