import PriceAction.Power

/-!
# The exact value of a binary floating-point number

`Parts.ofFloat` reads the 64 bits: a sign and either a whole number times a power of two, or one
of the two marks for "no number" and "infinite".
-/

namespace PriceAction.Decimal

/-- The magnitude `significand * 2 ^ exponent` of an ordinary floating-point number. -/
structure Binary where
  significand : Nat
  exponent : Int
  /-- The value sits just above a power of two, where the gap below is half the gap above. -/
  narrowBelow : Bool
deriving Repr, DecidableEq

/-- What the bits of a floating-point number say. -/
inductive Parts where
  | notANumber
  | infinite (negative : Bool)
  | finite (negative : Bool) (magnitude : Binary)
deriving Repr, DecidableEq

def Parts.ofBits (bits : Nat) : Parts :=
  let negative := decide (pow2 63 ≤ bits)
  let exponent : Nat := bits / pow2 52 % pow2 11
  let fraction : Nat := bits % pow2 52
  if exponent = 2047 then
    if fraction = 0 then .infinite negative else .notANumber
  else if exponent = 0 then
    .finite negative ⟨fraction, -1074, false⟩
  else
    .finite negative ⟨pow2 52 + fraction, (exponent : Int) - 1075, fraction = 0 && exponent > 1⟩

def Parts.ofFloat (x : Float) : Parts :=
  Parts.ofBits x.toBits.toNat

namespace Binary

/-- The value as a quotient of whole numbers. -/
def numerator (b : Binary) : Nat :=
  b.significand * pow2 b.exponent.toNat

def denominator (b : Binary) : Nat :=
  pow2 (-b.exponent).toNat

end Binary

end PriceAction.Decimal
