import PriceAction.Bar
import PriceAction.Fault
import PriceAction.Power
import PriceAction.Settings.Basic

/-!
# The active range

The extremes of the bars just before the latest one, extended back while earlier bars stay within
them. The latest close lies inside the range or has deviated from it.
-/

namespace PriceAction

inductive RangeState where
  | inside
  | deviatedUp
  | deviatedDown
deriving DecidableEq, Repr, Inhabited

def RangeState.text : RangeState → String
  | inside => "INSIDE"
  | deviatedUp => "DEVIATED_UP"
  | deviatedDown => "DEVIATED_DOWN"

structure TradingRange (α : Type) where
  high : α
  low : α
  /-- The middle of the range. -/
  equilibrium : α
  start : Instant
  stop : Instant
  startIndex : Nat
  stopIndex : Nat
  state : RangeState

namespace TradingRange

variable {α : Type} [Scalar α]

def width (r : TradingRange α) : α := r.high - r.low

def barCount (r : TradingRange α) : Nat := r.stopIndex - r.startIndex + 1

/-- The bars of the range; none if it stops before it starts. -/
def window (r : TradingRange α) (bars : List (Bar α)) : List (Bar α) :=
  (bars.take (r.stopIndex + 1)).drop r.startIndex

/-- The extreme on the side of a direction. -/
def extreme (r : TradingRange α) : Direction → α
  | .bullish => r.high
  | .bearish => r.low

/-- Where a close lies relative to two bounds. -/
def stateOf (close high low : α) : RangeState :=
  if high < close then .deviatedUp else if close < low then .deviatedDown else .inside

/-- The range of a series: its least number of bars sets the bounds, and earlier bars join, up to
the greatest number, while they stay within the bounds. -/
def detect (bars : List (Bar α)) (settings : RangeSettings) :
    Except Shortfall (TradingRange α) :=
  let least := max settings.leastBars 1
  match bars.reverse with
  | [] => .error (.bars "range" (least + 1) 0)
  | latest :: earlier =>
    let base := earlier.take least
    match base.head?, base.getLast? with
    | some newest, some oldest =>
      if earlier.length < least then .error (.bars "range" (least + 1) bars.length)
      else
        let high := Scalar.greatest (base.map (·.high)).reverse
        let low := Scalar.least (base.map (·.low)).reverse
        if high ≤ low then .error (.range "range")
        else
          let room := max settings.mostBars least - least
          let joined := ((earlier.drop least).take room).takeWhile fun b =>
            !(decide (high < b.high) || decide (b.low < low))
          let first := (joined.getLast?).getD oldest
          .ok
            { high := high
              low := low
              equilibrium := (high + low) / 2.0
              start := first.time
              stop := newest.time
              startIndex := bars.length - 1 - (least + joined.length)
              stopIndex := bars.length - 2
              state := stateOf latest.close high low }
    | _, _ => .error (.bars "range" (least + 1) bars.length)

/-- The range of a series. There is no result if the least number of bars and the latest one more do
not fit a word of 64 bits. -/
def detect? (bars : List (Bar α)) (settings : RangeSettings) :
    Option (Except Shortfall (TradingRange α)) :=
  if max settings.leastBars 1 + 1 < pow2 64 then some (detect bars settings) else none

end TradingRange

end PriceAction
