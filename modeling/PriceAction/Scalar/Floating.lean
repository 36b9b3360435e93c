import PriceAction.Decimal.Fixed
import PriceAction.Power
import PriceAction.Scalar

/-!
# Floating-point scalars

Binary floating point of 64 bits, the scalar of the running program. Sorting puts the negative
zero before the positive one and values that are no numbers last.
-/

namespace PriceAction

/-- A whole number whose order is that of the floating-point numbers, read off the bits: a set
sign bit turns the order of the rest around. -/
def floatOrderKey (x : Float) : Int :=
  let bits := x.toBits.toNat
  if bits < pow2 63 then bits else (pow2 63 : Int) - 1 - bits

instance instScalarFloat : Scalar Float where
  natCast := Float.ofNat
  decLt := Float.decLt
  decLe := Float.decLe
  abs := Float.abs
  isFinite := Float.isFinite
  order x y := compare (floatOrderKey x) (floatOrderKey y)
  largest? := some 1.7976931348623157e308
  hundredths := Decimal.floatHundredths

end PriceAction
