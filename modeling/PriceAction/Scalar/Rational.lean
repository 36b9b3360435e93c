import PriceAction.Scalar
import PriceAction.Decimal.Fixed

/-!
# Rational scalars

Exact rationals, the scalar of the laws that speak of exact arithmetic. Every value is a number
and there is no greatest one.
-/

namespace PriceAction

instance instScalarRat : Scalar Rat where
  add := Rat.add
  sub := Rat.sub
  mul := Rat.mul
  div := Rat.div
  neg := Rat.neg
  toLT := Rat.instLT
  toLE := Rat.instLE
  toNatCast := Rat.instNatCast
  toOfScientific := Rat.instOfScientific
  decLt := Rat.instDecidableLt
  decLe := Rat.instDecidableLe
  abs := Rat.abs
  isFinite _ := true
  order x y := if Rat.blt x y then .lt else if Rat.blt y x then .gt else .eq
  largest? := none
  hundredths x := Decimal.hundredths (x.num < 0) x.num.natAbs x.den

end PriceAction
