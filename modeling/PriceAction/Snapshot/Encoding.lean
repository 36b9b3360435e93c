import PriceAction.Scenario.Encoding
import PriceAction.Snapshot.Analysis
import PriceAction.Zone.Encoding

/-!
# Snapshots as data

How analyses and snapshots are written to a data file.
-/

namespace PriceAction

open Json (arrayOf ofFloat ofNat orNull)

def BarFault.toJson : BarFault Float → Json
  | .nonFinite i t => .object
      [("kind", .text "non_finite"), ("index", ofNat i), ("timestamp", t.toJson)]
  | .inconsistent i t high low => .object
      [("kind", .text "inconsistent_ohlc"), ("index", ofNat i), ("timestamp", t.toJson),
        ("high", ofFloat high), ("low", ofFloat low)]
  | .negativeVolume i t => .object
      [("kind", .text "negative_volume"), ("index", ofNat i), ("timestamp", t.toJson)]
  | .outOfOrder i t previous => .object
      [("kind", .text "out_of_order"), ("index", ofNat i), ("timestamp", t.toJson),
        ("previous", previous.toJson)]

def MicroSignal.toJson (m : MicroSignal) : Json := .object
  [("timeframe", .text m.timeframe.label), ("kind", m.kind.toJson),
    ("direction", m.direction.toJson), ("timestamp", m.time.toJson)]

def SnapshotMeta.toJson (m : SnapshotMeta Float) : Json := .object
  [("symbol", .text m.symbol), ("primary_timeframe", .text m.primary.label),
    ("last_price", orNull ofFloat m.lastPrice),
    ("window_start", orNull Instant.toJson m.windowStart),
    ("window_end", orNull Instant.toJson m.windowStop), ("bar_count", ofNat m.barCount),
    ("rejected_bars", arrayOf BarFault.toJson m.rejected),
    ("daily_range_derived", .bool m.dailyRangeDerived),
    ("micro", orNull MicroSignal.toJson m.micro),
    ("degraded", arrayOf Shortfall.toJson m.shortfalls)]

def Analysis.toJson (a : Analysis Float) : Json := .object
  [("structure", a.structural.toJson), ("liquidity", a.liquidity.toJson),
    ("zones", a.zones.toJson), ("decision", a.decision.toJson), ("meta", a.details.toJson)]

def Snapshot.toJson (s : Snapshot Float) : Json := .object
  [("structure", s.structural.toJson), ("liquidity", s.liquidity.toJson),
    ("zones", s.zones.toJson), ("scenario", orNull ScenarioReport.toJson s.scenario),
    ("meta", s.details.toJson)]

end PriceAction
