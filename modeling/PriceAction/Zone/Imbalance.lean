import PriceAction.Zone.Basic

/-!
# Imbalances

Three candles leave a gap when the third does not reach back to the first. A gap that is large
enough is a zone; later bars fill it from its near side, and age ends it.
-/

namespace PriceAction.Zone

variable {α : Type} [Scalar α]

/-- The gap between the first and the third of three candles: its edges and its direction. -/
def gap? (first last : Bar α) : Option (α × α × Direction) :=
  if first.high < last.low then some (first.high, last.low, .bullish)
  else if last.high < first.low then some (last.high, first.low, .bearish)
  else none

/-- How far a bar reaches into a gap. -/
def penetration (low high : α) : Direction → Bar α → α
  | .bullish, b => high - b.low
  | .bearish, b => b.high - low

/-- The share of a gap that later bars have filled. -/
def fillOf (later : List (Bar α)) (low high : α) (d : Direction) : α :=
  let size := high - low
  if size ≤ 0.0 then 0.0
  else
    let deepest := (later.map (penetration low high d)).foldl Scalar.max 0.0
    Scalar.clamp (deepest / size) 0.0 1.0

/-- The status of a gap with a given fill and age. -/
def gapStatus (settings : ImbalanceSettings α) (fill : α) (age : Nat) : ZoneStatus :=
  if 1.0 ≤ fill then .filled
  else if settings.mostAge < age then .expired
  else if 0.0 < fill then .mitigated
  else .active

/-- The imbalance of three candles, the middle one at `index`, given the bars after them. -/
def ofCandles? (view : ZoneView α) (volatility : α) (index : Nat) (first middle last : Bar α)
    (later : List (Bar α)) : Option (Zone α) :=
  (gap? first last).bind fun (low, high, d) =>
    let settings := view.settings.imbalance
    let size := high - low
    let least := Scalar.max (settings.gapVolatilities * volatility)
      (settings.gapShare * middle.close)
    if size ≤ least then none
    else
      let fill := fillOf later low high d
      some
        { id := idOf .imbalance view.timeframe (middle.time.offsetText ++ "|" ++ d.text)
          kind := .imbalance
          timeframe := view.timeframe
          low := low
          high := high
          originTime := middle.time
          originIndex := index
          direction := d
          role := .relative d view.structural.bias
          strength := Scalar.min (size / (2.0 * volatility)) 1.0 * (1.0 - fill)
          status := gapStatus settings fill (later.length + 1)
          fill := fill
          provenance := [.gap first.time last.time] }

/-- The imbalances of the candles from number `index` on. -/
def imbalancesFrom (view : ZoneView α) (volatility : α) : (index : Nat) → List (Bar α) →
    List (Zone α)
  | index, first :: middle :: last :: later =>
    (ofCandles? view volatility (index + 1) first middle last later).toList ++
      imbalancesFrom view volatility (index + 1) (middle :: last :: later)
  | _, _ => []

/-- The imbalances of a series with a volatility. -/
def imbalances (view : ZoneView α) (volatility : α) : List (Zone α) :=
  imbalancesFrom view volatility 0 view.bars

end PriceAction.Zone
