import PriceAction.Bar

/-!
# Market context

Hints from higher timeframes that come with the bars: the daily range, the sessions of the day,
the bias and the volatility of the higher timeframe.
-/

namespace PriceAction

/-- The range of the day before. -/
structure DailyRange (α : Type) where
  high : α
  low : α

/-- A session such as `london`; it includes its start and not its end. -/
structure Session where
  name : String
  start : Instant
  stop : Instant
deriving DecidableEq, Repr

structure MarketContext (α : Type) where
  dailyRange : Option (DailyRange α) := none
  sessions : List Session := []
  higherBias : Option Bias := none
  higherVolatility : Option α := none

variable {α : Type}

def DailyRange.contains [Scalar α] (r : DailyRange α) (price : α) : Bool :=
  Scalar.between price r.low r.high

def Session.contains (s : Session) (t : Instant) : Bool :=
  s.start ≤ t && t < s.stop

/-- The direction of the higher timeframe's bias, if it has one. -/
def MarketContext.higherDirection? (c : MarketContext α) : Option Direction :=
  c.higherBias.bind Bias.direction?

end PriceAction
