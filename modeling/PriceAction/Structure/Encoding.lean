import PriceAction.Bar.Codec
import PriceAction.Context.Codec
import PriceAction.Structure.State

/-!
# Structures as data

How the structure of a series is written to a data file.
-/

namespace PriceAction

open Json (arrayOf ofFloat ofNat orNull)

def Trend.toJson (t : Trend) : Json := .text t.text

def Role.toJson (r : Role) : Json := .text r.text

def Shortfall.toJson : Shortfall → Json
  | .bars stage needed present => .object
      [("kind", .text "insufficient_bars"), ("stage", .text stage), ("needed", ofNat needed),
        ("have", ofNat present)]
  | .volatility stage => .object [("kind", .text "atr_unavailable"), ("stage", .text stage)]
  | .range stage => .object [("kind", .text "no_active_range"), ("stage", .text stage)]
  | .series timeframe => .object
      [("kind", .text "missing_primary_series"), ("timeframe", .text timeframe)]

def Swing.toJson (s : Swing Float) : Json := .object
  [("index", ofNat s.index), ("timestamp", s.time.toJson), ("price", ofFloat s.price),
    ("kind", .text s.kind.text), ("strength", ofNat s.strength)]

def SwingLabel.toJson (l : SwingLabel) : Json := .text l.text

def Leg.toJson (l : Leg Float) : Json := .object
  [("start", l.start.toJson), ("end", l.stop.toJson), ("direction", l.direction.toJson),
    ("label", orNull SwingLabel.toJson l.label)]

def BreakKind.toJson (k : BreakKind) : Json := .text k.text

def Break.toJson (e : Break Float) : Json := .object
  [("kind", e.kind.toJson), ("direction", e.direction.toJson), ("price", ofFloat e.price),
    ("timestamp", e.time.toJson), ("bar_index", ofNat e.barIndex),
    ("leg_index", ofNat e.legIndex), ("displacement", ofFloat e.displacement)]

def TradingRange.toJson (r : TradingRange Float) : Json := .object
  [("high", ofFloat r.high), ("low", ofFloat r.low), ("equilibrium", ofFloat r.equilibrium),
    ("start", r.start.toJson), ("end", r.stop.toJson), ("start_index", ofNat r.startIndex),
    ("end_index", ofNat r.stopIndex), ("state", .text r.state.text)]

def Retracement.toJson (z : Retracement Float) : Json := .object
  [("low", ofFloat z.low), ("high", ofFloat z.high), ("direction", z.direction.toJson),
    ("role", z.role.toJson), ("leg_index", ofNat z.legIndex), ("leg_start", z.legStart.toJson),
    ("leg_end", z.legStop.toJson), ("amplitude", ofFloat z.amplitude)]

def StructureMeta.toJson (m : StructureMeta Float) : Json := .object
  [("bar_count", ofNat m.barCount), ("atr_period", ofNat m.volatilityPeriod),
    ("atr", orNull ofFloat m.volatility), ("break_threshold_atr", orNull ofFloat m.breakThreshold),
    ("volatility_pct", orNull ofFloat m.volatilityShare),
    ("trend_source", .text m.trendSource.text),
    ("drift_efficiency", orNull ofFloat m.driftEfficiency),
    ("last_choch", orNull Instant.toJson m.lastCharacter),
    ("degraded", arrayOf Shortfall.toJson m.shortfalls)]

def Structure.toJson (s : Structure Float) : Json := .object
  [("trend", s.trend.toJson), ("bias", s.bias.toJson), ("swings", arrayOf Swing.toJson s.swings),
    ("legs", arrayOf Leg.toJson s.legs), ("active_range", orNull TradingRange.toJson s.activeRange),
    ("events", arrayOf Break.toJson s.breaks),
    ("ote_zones", arrayOf Retracement.toJson s.retracements), ("meta", s.details.toJson)]

end PriceAction
