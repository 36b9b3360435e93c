import PriceAction.Settings.Basic
import PriceAction.Structure.Leg

/-!
# Retracement bands

The band in which a large leg is expected to be retraced, measured back from its end. Of the primary
bands of a direction only the newest are kept; all others are.
-/

namespace PriceAction

structure Retracement (α : Type) where
  low : α
  high : α
  direction : Direction
  role : Role
  legIndex : Nat
  legStart : Instant
  legStop : Instant
  amplitude : α

namespace Retracement

variable {α : Type} [Scalar α]

def contains (z : Retracement α) (price : α) : Bool :=
  Scalar.between price z.low z.high

/-- The lower and the upper edge of a leg's band. -/
def band (settings : RetracementSettings α) (leg : Leg α) : α × α :=
  match leg.direction with
  | .bullish =>
    (leg.stop.price - settings.farShare * leg.amplitude,
      leg.stop.price - settings.nearShare * leg.amplitude)
  | .bearish =>
    (leg.stop.price + settings.nearShare * leg.amplitude,
      leg.stop.price + settings.farShare * leg.amplitude)

def ofLeg (settings : RetracementSettings α) (bias : Bias) (leg : Leg α) (index : Nat) :
    Retracement α :=
  let edges := band settings leg
  { low := edges.1
    high := edges.2
    direction := leg.direction
    role := .relative leg.direction bias
    legIndex := index
    legStart := leg.start.time
    legStop := leg.stop.time
    amplitude := leg.amplitude }

/-- The counts with one more in a direction. -/
def countOne (kept : Direction → Nat) (d : Direction) : Direction → Nat :=
  fun e => if e = d then kept e + 1 else kept e

/-- Walks from the newest band back: a primary band is kept while fewer than `most` newer ones of
its direction have been. -/
def keepNewest (most : Nat) (zones : List (Retracement α)) :
    (Direction → Nat) × List (Retracement α) :=
  zones.foldr
    (fun z (kept, rest) =>
      if z.role ≠ .primary then (kept, z :: rest)
      else if kept z.direction < most then (countOne kept z.direction, z :: rest)
      else (kept, rest))
    (fun _ => 0, [])

/-- The bands of the legs from number `firstLeg` on that exceed the least amplitude. -/
def detect (legs : List (Leg α)) (firstLeg : Nat) (volatility : α) (bias : Bias)
    (settings : RetracementSettings α) : List (Retracement α) :=
  let large := (legs.zipIdx.drop firstLeg).filter fun (leg, _) =>
    settings.legVolatilities * volatility < leg.amplitude
  (keepNewest settings.mostPrimary (large.map fun (leg, i) => ofLeg settings bias leg i)).2

end Retracement

end PriceAction
