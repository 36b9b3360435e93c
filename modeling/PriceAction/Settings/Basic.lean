import PriceAction.Scalar

/-!
# Settings

The numbers that every stage of the analysis is tuned by, with their standard values. Each stage
has settings of its own.
-/

namespace PriceAction

/-! ## Structure -/

structure SwingSettings where
  /-- Bars on each side of a pivot. -/
  window : Nat := 2
  /-- The most that the strength of a pivot counts up to. -/
  strengthCap : Nat := 4
deriving DecidableEq, Repr

structure StructureSettings (α : Type) where
  /-- True ranges that the volatility averages. -/
  volatilityPeriod : Nat
  /-- Volatilities that a leg has to exceed to break a level. -/
  breakVolatilities : α
  /-- The share of its middle price that a leg has to exceed to break a level. -/
  breakShare : α
  /-- The latest pivot labels that decide the trend. -/
  trendLabels : Nat
  /-- The latest bars that are analysed at all. -/
  lookback : Nat
  /-- The efficiency from which the drift of the closes counts as a trend. -/
  driftEfficiency : α

structure RangeSettings where
  leastBars : Nat := 8
  mostBars : Nat := 120
deriving DecidableEq, Repr

structure RetracementSettings (α : Type) where
  /-- Volatilities that a leg has to exceed. -/
  legVolatilities : α
  /-- The nearer edge of the band, as a share of the leg measured back from its end. -/
  nearShare : α
  /-- The farther edge of the band. -/
  farShare : α
  /-- Bands kept in the direction of the bias. -/
  mostPrimary : Nat

/-! ## Liquidity -/

structure LiquiditySettings (α : Type) where
  /-- How far apart equal levels may be, as a share of the price. -/
  tolerance : α
  /-- The share of its bar from which a wick is long. -/
  wickShare : α
  /-- Long wicks that make a cluster. -/
  wickTouches : Nat
  /-- The share of its bar from which a wick through the range is a manipulation. -/
  strongWickShare : α
  /-- Magnets marked as primary. -/
  mostPrimary : Nat
  /-- The latest bars that count as recent. -/
  recentBars : Nat
  /-- The efficiency from which a drift is clean. -/
  cleanEfficiency : α

/-! ## Zones -/

structure OrderBlockSettings (α : Type) where
  /-- The body share from which the zone is the body alone. -/
  bodyZoneShare : α
  /-- The least body share of the candle. -/
  leastBodyShare : α
  /-- Bars searched before the break. -/
  prelude : Nat
  /-- Volatilities from the last close within which a block stays active. -/
  distanceVolatilities : α

structure BreakerSettings (α : Type) where
  /-- Bars from the block to the sweep, and from the sweep to the break. -/
  delay : Nat
  /-- How far from the block's edge the sweep may be, as a share of the block's span. -/
  spanTolerance : α
  /-- How far from the block's edge the sweep may be, as a share of the edge's price. -/
  edgeTolerance : α
  /-- Volatilities that the break has to move. -/
  breakVolatilities : α

structure ImbalanceSettings (α : Type) where
  /-- Volatilities that the gap has to exceed. -/
  gapVolatilities : α
  /-- The share of the middle close that the gap has to exceed. -/
  gapShare : α
  /-- Bars after which a gap expires. -/
  mostAge : Nat

structure ConfluenceSettings (α : Type) where
  /-- The overlap, as a share of the narrower zone, from which two zones belong together. -/
  overlapShare : α
  /-- Volatilities up to which a gap between two zones does not keep them apart. -/
  gapVolatilities : α

structure ZoneSettings (α : Type) where
  /-- Bars after which a zone is no longer active. -/
  lookback : Nat
  orderBlock : OrderBlockSettings α
  breaker : BreakerSettings α
  imbalance : ImbalanceSettings α
  confluence : ConfluenceSettings α

/-! ## Scenario -/

structure ScenarioSettings where
  /-- The latest bars in which a sweep of the higher timeframe counts. -/
  sweepBars : Nat := 5
  /-- The latest bars in which a break of the micro timeframe counts. -/
  microBars : Nat := 3
deriving DecidableEq, Repr

structure StabilitySettings (α : Type) where
  /-- Snapshots in a row that confirm a candidate. -/
  confirmations : Nat
  /-- The confidence by which a candidate has to beat a named scenario. -/
  margin : α
  /-- Seconds between two switches. -/
  cooldown : Int
  /-- Confirmations waived by a break on the micro timeframe. -/
  microDiscount : Nat

structure Settings (α : Type) where
  swing : SwingSettings
  structural : StructureSettings α
  range : RangeSettings
  retracement : RetracementSettings α
  liquidity : LiquiditySettings α
  zones : ZoneSettings α
  scenario : ScenarioSettings
  stability : StabilitySettings α

/-! ## Standard values -/

section Standard

variable {α : Type} [Scalar α]

def SwingSettings.standard : SwingSettings := {}

def StructureSettings.standard : StructureSettings α where
  volatilityPeriod := 14
  breakVolatilities := 1.0
  breakShare := 0.001
  trendLabels := 3
  lookback := 500
  driftEfficiency := 0.7

def RangeSettings.standard : RangeSettings := {}

def RetracementSettings.standard : RetracementSettings α where
  legVolatilities := 1.5
  nearShare := 0.62
  farShare := 0.79
  mostPrimary := 2

def LiquiditySettings.standard : LiquiditySettings α where
  tolerance := 0.001
  wickShare := 0.5
  wickTouches := 3
  strongWickShare := 0.6
  mostPrimary := 3
  recentBars := 3
  cleanEfficiency := 0.6

def OrderBlockSettings.standard : OrderBlockSettings α where
  bodyZoneShare := 0.5
  leastBodyShare := 0.2
  prelude := 10
  distanceVolatilities := 8.0

def BreakerSettings.standard : BreakerSettings α where
  delay := 20
  spanTolerance := 0.15
  edgeTolerance := 0.0015
  breakVolatilities := 1.0

def ImbalanceSettings.standard : ImbalanceSettings α where
  gapVolatilities := 0.25
  gapShare := 0.0005
  mostAge := 100

def ConfluenceSettings.standard : ConfluenceSettings α where
  overlapShare := 0.5
  gapVolatilities := 0.1

def ZoneSettings.standard : ZoneSettings α where
  lookback := 300
  orderBlock := .standard
  breaker := .standard
  imbalance := .standard
  confluence := .standard

def ScenarioSettings.standard : ScenarioSettings := {}

def StabilitySettings.standard : StabilitySettings α where
  confirmations := 3
  margin := 0.05
  cooldown := 900
  microDiscount := 1

def Settings.standard : Settings α where
  swing := .standard
  structural := .standard
  range := .standard
  retracement := .standard
  liquidity := .standard
  zones := .standard
  scenario := .standard
  stability := .standard

end Standard

end PriceAction
