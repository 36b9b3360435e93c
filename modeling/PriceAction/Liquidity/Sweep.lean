import PriceAction.Structure.Swing

/-!
# Sweeps

A sweep is a bar that trades through a swing for the first time, and closes back on the side it
came from, either itself or by the bar after it. A first bar that does neither has broken the
level, which is then no longer watched.
-/

namespace PriceAction

structure Sweep (α : Type) where
  level : α
  /-- The side of the market whose resting orders were taken. -/
  side : Direction
  swingIndex : Nat
  barIndex : Nat
  time : Instant
  /-- The wick of the sweeping bar as a share of its range. -/
  wickRatio : α
  /-- The bar that closed back. -/
  reclaimIndex : Nat

namespace Sweep

variable {α : Type} [Scalar α]

/-- The direction in which the price is expected to turn. -/
def reversal (s : Sweep α) : Direction := s.side.opposite

/-- The first bar that trades through the level, with its position and the bars after it. -/
def firstThrough? (side : Direction) (level : α) : (index : Nat) → List (Bar α) →
    Option (Nat × Bar α × List (Bar α))
  | _, [] => none
  | index, bar :: after =>
    if side.beyond (bar.extreme side) level then some (index, bar, after)
    else firstThrough? side level (index + 1) after

/-- Whether a bar closes on the near side of a level. -/
def closesBack (side : Direction) (level : α) (bar : Bar α) : Bool :=
  side.opposite.beyond bar.close level

/-- The sweep of a swing, if it has been swept. -/
def ofSwing? (bars : List (Bar α)) (s : Swing α) : Option (Sweep α) :=
  let side := s.kind.side
  match firstThrough? side s.price (s.index + 1) (bars.drop (s.index + 1)) with
  | none => none
  | some (j, bar, after) =>
    let reclaim? : Option Nat :=
      if closesBack side s.price bar then some j
      else if (after.head?.map (closesBack side s.price)).getD false then some (j + 1)
      else none
    reclaim?.map fun reclaim =>
      { level := s.price
        side := side
        swingIndex := s.index
        barIndex := j
        time := bar.time
        wickRatio := bar.share (bar.wick side)
        reclaimIndex := reclaim }

/-- The order of sweeps: by bar, and for one bar by swing. -/
def notAfter (a b : Sweep α) : Bool :=
  a.barIndex < b.barIndex || (a.barIndex = b.barIndex && a.swingIndex ≤ b.swingIndex)

/-- The sweeps of all swings. -/
def detect (bars : List (Bar α)) (swings : List (Swing α)) : List (Sweep α) :=
  (swings.filterMap (ofSwing? bars)).mergeSort notAfter

end Sweep

end PriceAction
