import PriceAction.Scenario.Gates
import PriceAction.Scenario.Store
import PriceAction.Snapshot.Market
import PriceAction.Snapshot.Sanitation

/-!
# The analysis of a market

One market runs through sanitation, structure, liquidity, zones and the raw decision. `stabilize`
then feeds the decision to the store and makes the snapshot.
-/

namespace PriceAction

/-- A recent break on the micro timeframe. -/
structure MicroSignal where
  timeframe : Timeframe
  kind : BreakKind
  direction : Direction
  time : Instant
deriving DecidableEq, Repr

/-- Where a snapshot comes from. -/
structure SnapshotMeta (α : Type) where
  symbol : String
  primary : Timeframe
  lastPrice : Option α
  windowStart : Option Instant
  windowStop : Option Instant
  barCount : Nat
  rejected : List (BarFault α)
  /-- Whether the daily range was read off a daily series. -/
  dailyRangeDerived : Bool
  micro : Option MicroSignal
  shortfalls : List Shortfall

structure Analysis (α : Type) where
  structural : Structure α
  liquidity : Liquidity α
  zones : ZoneReport α
  decision : Decision α
  details : SnapshotMeta α

structure Snapshot (α : Type) where
  structural : Structure α
  liquidity : Liquidity α
  zones : ZoneReport α
  /-- Absent when the primary series has no clean bar. -/
  scenario : Option (ScenarioReport α)
  details : SnapshotMeta α

namespace Market

variable {α : Type} [Scalar α]

/-! ## The context -/

/-- The first daily series that is not the primary one. -/
def dailySeries? (m : Market α) : Option (Timeframe × List (Bar α)) :=
  (m.series.entries.find? fun e => Timeframe.isDaily ⟨e.1⟩ && e.1 ≠ m.primary.label).map
    fun e => (⟨e.1⟩, e.2)

/-- Whether a bar of a timeframe had closed by a time, if there is one. -/
def hadClosed (tf : Timeframe) (closed : Option Instant) (b : Bar α) : Bool :=
  match closed with
  | some t => b.time.plus tf.barSeconds ≤ t
  | none => true

/-- The range of the last daily bar that had closed. -/
def derivedRange? (m : Market α) (closed : Option Instant) : Option (DailyRange α) :=
  m.dailySeries?.bind fun (tf, bars) =>
    ((sanitize bars).clean.reverse.find? (hadClosed tf closed)).map fun b => ⟨b.high, b.low⟩

/-- The context, its daily range filled from the daily series where none was supplied, and whether
it was. -/
def resolveContext (m : Market α) (closed : Option Instant) : MarketContext α × Bool :=
  match m.context.dailyRange, m.derivedRange? closed with
  | none, some range => ({ m.context with dailyRange := some range }, true)
  | _, _ => (m.context, false)

/-! ## The micro timeframe -/

/-- The last break on the micro timeframe, if it is recent. -/
def microSignal? (m : Market α) (settings : Settings α) : Option MicroSignal := do
  let tf ← m.microTimeframe?
  let supplied ← m.series.get? tf.label
  let bars := (prepare supplied settings.structural.lookback).clean
  let e ← (Structure.analyze bars settings).breaks.getLast?
  if bars.length - (1 + e.barIndex) < settings.scenario.microBars then
    some ⟨tf, e.kind, e.direction, e.time⟩
  else none

/-! ## The analysis -/

/-- The primary bars that are analysed, with the faults of the others. -/
def prepared (m : Market α) (settings : Settings α) : Sanitized α :=
  prepare (m.primaryBars?.getD []) settings.structural.lookback

/-- The analysis of a market, before its decision is stabilized. -/
def analyze (m : Market α) (settings : Settings α) : Analysis α :=
  let input := m.prepared settings
  let bars := input.clean
  let last := bars.getLast?
  let (context, derived) := m.resolveContext (last.map fun b => m.closeOf b.time)
  let structural := Structure.analyze bars settings
  let liquidity := Liquidity.analyze bars structural context settings.liquidity
  let zones := ZoneReport.analyze
    { bars := bars
      structural := structural
      liquidity := liquidity
      timeframe := m.primary
      settings := settings.zones }
  let decision := Scenario.classify
    { bars := bars
      structural := structural
      liquidity := liquidity
      zones := zones
      context := context }
    settings.scenario
  { structural := structural
    liquidity := liquidity
    zones := zones
    decision := decision
    details :=
      { symbol := m.symbol
        primary := m.primary
        lastPrice := last.map (·.close)
        windowStart := bars.head?.map (·.time)
        windowStop := last.map (·.time)
        barCount := bars.length
        rejected := input.rejected
        dailyRangeDerived := derived
        micro := m.microSignal? settings
        shortfalls := if m.primaryBars?.isNone then [.series m.primary.label] else [] } }

end Market

namespace Analysis

variable {α : Type} [Scalar α]

/-- The observation that an analysis makes, at the time of its last bar. -/
def observation? (a : Analysis α) : Option (Observation α) :=
  a.details.windowStop.map fun t => ⟨a.decision, t, a.details.micro.map (·.direction)⟩

/-- The snapshot of an analysis with the given scenario. -/
def snapshot (a : Analysis α) (scenario : Option (ScenarioReport α)) : Snapshot α where
  structural := a.structural
  liquidity := a.liquidity
  zones := a.zones
  scenario := scenario
  details := a.details

/-- Feeds the decision to the store. -/
def stabilize (a : Analysis α) (store : Store α) : Snapshot α × Store α :=
  match a.observation? with
  | some o =>
    let store := store.observe a.details.symbol o
    (a.snapshot ((store.get? a.details.symbol).map (·.report)), store)
  | none => (a.snapshot none, store)

end Analysis

/-- One market, analysed and stabilized. -/
def Market.snapshot {α : Type} [Scalar α] (m : Market α) (settings : Settings α)
    (store : Store α) : Snapshot α × Store α :=
  (m.analyze settings).stabilize store

end PriceAction
