import PriceAction.Zone.Lifecycle

/-!
# Order blocks

The last candle against a break, within some bars before it and with body enough, makes a zone:
its body if that dominates the candle, its whole range otherwise. Of breaks that lead back to one
candle only the first makes a zone.
-/

namespace PriceAction.Zone

variable {α : Type} [Scalar α]

/-- Whether a candle closes against a direction. -/
def opposes (d : Direction) (b : Bar α) : Bool :=
  d.opposite.beyond b.close b.opening

/-- The last suitable candle before the bar of a break. -/
def candle? (settings : OrderBlockSettings α) (bars : List (Bar α)) (e : Break α) :
    Option (Bar α × Nat) :=
  ((bars.zipIdx.take e.barIndex).drop (e.barIndex - settings.prelude)).reverse.find?
    fun (b, _) => opposes e.direction b && decide (settings.leastBodyShare ≤ b.bodyRatio)

/-- The zone that a break leaves at a candle. -/
def ofCandle (view : ZoneView α) (volatility : α) (e : Break α) (eventIndex : Nat)
    (candle : Bar α) (index : Nat) : Zone α :=
  let bodyOnly := decide (view.settings.orderBlock.bodyZoneShare ≤ candle.bodyRatio)
  let low := if bodyOnly then candle.bodyLow else candle.low
  let high := if bodyOnly then candle.bodyHigh else candle.high
  { id := idOf .orderBlock view.timeframe (candle.time.offsetText ++ "|" ++ e.direction.text)
    kind := .orderBlock
    timeframe := view.timeframe
    low := low
    high := high
    originTime := candle.time
    originIndex := index
    direction := e.direction
    role := .relative e.direction view.structural.bias
    strength := 0.4 + 0.6 * impulse e.displacement volatility
    status := lifecycle view.bars e.barIndex low high e.direction
    fill := 0.0
    provenance := [e.provenance eventIndex] }

/-- The order block of a break, if it has a candle. -/
def ofBreak? (view : ZoneView α) (volatility : α) (e : Break α) (eventIndex : Nat) :
    Option (Zone α) :=
  (candle? view.settings.orderBlock view.bars e).map fun (candle, index) =>
    ofCandle view volatility e eventIndex candle index

/-- Adds a zone to those found so far, unless its id is among them. -/
def addNew (zones : List (Zone α)) (z : Zone α) : List (Zone α) :=
  if zones.any (·.id = z.id) then zones else zones ++ [z]

/-- The order blocks of a series with a volatility. -/
def orderBlocks (view : ZoneView α) (volatility : α) : List (Zone α) :=
  (view.structural.breaks.zipIdx.filterMap fun (e, i) => ofBreak? view volatility e i).foldl
    addNew []

end PriceAction.Zone
