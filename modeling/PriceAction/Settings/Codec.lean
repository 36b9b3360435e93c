import PriceAction.Json.Decode
import PriceAction.Scalar.Floating
import PriceAction.Settings.Basic

/-!
# Settings as data

Each group of settings is a record in which every field may be left out and then has its standard
value. Whole settings are words of 64 or 32 bits.
-/

namespace PriceAction

open Json (fallback? float? int? natBelow? ofFloat ofNat)

namespace SwingSettings

def fields : List String := ["window", "strength_cap"]

def toJson (s : SwingSettings) : Json :=
  .object (fields.zip [ofNat s.window, ofNat s.strengthCap])

def ofJson? (j : Json) : Option SwingSettings := do
  match ← j.slots? fields with
  | [a, b] =>
    some
      { window := ← fallback? (natBelow? 64) standard.window a
        strengthCap := ← fallback? (natBelow? 32) standard.strengthCap b }
  | _ => none

end SwingSettings

namespace StructureSettings

def fields : List String :=
  ["atr_period", "break_atr_multiple", "break_pct_multiple", "trend_labels", "max_lookback_bars",
    "drift_efficiency"]

def toJson (s : StructureSettings Float) : Json :=
  .object (fields.zip [ofNat s.volatilityPeriod, ofFloat s.breakVolatilities, ofFloat s.breakShare,
    ofNat s.trendLabels, ofNat s.lookback, ofFloat s.driftEfficiency])

def ofJson? (j : Json) : Option (StructureSettings Float) := do
  match ← j.slots? fields with
  | [a, b, c, d, e, f] =>
    some
      { volatilityPeriod := ← fallback? (natBelow? 64) (standard (α := Float)).volatilityPeriod a
        breakVolatilities := ← fallback? float? standard.breakVolatilities b
        breakShare := ← fallback? float? standard.breakShare c
        trendLabels := ← fallback? (natBelow? 64) (standard (α := Float)).trendLabels d
        lookback := ← fallback? (natBelow? 64) (standard (α := Float)).lookback e
        driftEfficiency := ← fallback? float? standard.driftEfficiency f }
  | _ => none

end StructureSettings

namespace RangeSettings

def fields : List String := ["min_range_bars", "max_range_bars"]

def toJson (s : RangeSettings) : Json :=
  .object (fields.zip [ofNat s.leastBars, ofNat s.mostBars])

def ofJson? (j : Json) : Option RangeSettings := do
  match ← j.slots? fields with
  | [a, b] =>
    some
      { leastBars := ← fallback? (natBelow? 64) standard.leastBars a
        mostBars := ← fallback? (natBelow? 64) standard.mostBars b }
  | _ => none

end RangeSettings

namespace RetracementSettings

def fields : List String :=
  ["leg_min_amplitude_atr", "fib_lower", "fib_upper", "max_zones_per_side"]

def toJson (s : RetracementSettings Float) : Json :=
  .object (fields.zip [ofFloat s.legVolatilities, ofFloat s.nearShare, ofFloat s.farShare,
    ofNat s.mostPrimary])

def ofJson? (j : Json) : Option (RetracementSettings Float) := do
  match ← j.slots? fields with
  | [a, b, c, d] =>
    some
      { legVolatilities := ← fallback? float? standard.legVolatilities a
        nearShare := ← fallback? float? standard.nearShare b
        farShare := ← fallback? float? standard.farShare c
        mostPrimary := ← fallback? (natBelow? 64) (standard (α := Float)).mostPrimary d }
  | _ => none

end RetracementSettings

namespace LiquiditySettings

def fields : List String :=
  ["equal_level_tolerance_pct", "wick_min_ratio", "wick_cluster_min_touches", "strong_wick_ratio",
    "max_primary_magnets", "recent_bars", "distribution_efficiency"]

def toJson (s : LiquiditySettings Float) : Json :=
  .object (fields.zip [ofFloat s.tolerance, ofFloat s.wickShare, ofNat s.wickTouches,
    ofFloat s.strongWickShare, ofNat s.mostPrimary, ofNat s.recentBars,
    ofFloat s.cleanEfficiency])

def ofJson? (j : Json) : Option (LiquiditySettings Float) := do
  match ← j.slots? fields with
  | [a, b, c, d, e, f, g] =>
    some
      { tolerance := ← fallback? float? standard.tolerance a
        wickShare := ← fallback? float? standard.wickShare b
        wickTouches := ← fallback? (natBelow? 64) (standard (α := Float)).wickTouches c
        strongWickShare := ← fallback? float? standard.strongWickShare d
        mostPrimary := ← fallback? (natBelow? 64) (standard (α := Float)).mostPrimary e
        recentBars := ← fallback? (natBelow? 64) (standard (α := Float)).recentBars f
        cleanEfficiency := ← fallback? float? standard.cleanEfficiency g }
  | _ => none

end LiquiditySettings

namespace OrderBlockSettings

def fields : List String :=
  ["body_domination_pct", "body_min_pct", "prelude_max_bars", "max_distance_atr"]

def toJson (s : OrderBlockSettings Float) : Json :=
  .object (fields.zip [ofFloat s.bodyZoneShare, ofFloat s.leastBodyShare, ofNat s.prelude,
    ofFloat s.distanceVolatilities])

def ofJson? (j : Json) : Option (OrderBlockSettings Float) := do
  match ← j.slots? fields with
  | [a, b, c, d] =>
    some
      { bodyZoneShare := ← fallback? float? standard.bodyZoneShare a
        leastBodyShare := ← fallback? float? standard.leastBodyShare b
        prelude := ← fallback? (natBelow? 64) (standard (α := Float)).prelude c
        distanceVolatilities := ← fallback? float? standard.distanceVolatilities d }
  | _ => none

end OrderBlockSettings

namespace BreakerSettings

def fields : List String :=
  ["max_sweep_delay", "level_tolerance_span_ratio", "level_tolerance_pct", "min_displacement_atr"]

def toJson (s : BreakerSettings Float) : Json :=
  .object (fields.zip [ofNat s.delay, ofFloat s.spanTolerance, ofFloat s.edgeTolerance,
    ofFloat s.breakVolatilities])

def ofJson? (j : Json) : Option (BreakerSettings Float) := do
  match ← j.slots? fields with
  | [a, b, c, d] =>
    some
      { delay := ← fallback? (natBelow? 64) (standard (α := Float)).delay a
        spanTolerance := ← fallback? float? standard.spanTolerance b
        edgeTolerance := ← fallback? float? standard.edgeTolerance c
        breakVolatilities := ← fallback? float? standard.breakVolatilities d }
  | _ => none

end BreakerSettings

namespace ImbalanceSettings

def fields : List String := ["min_gap_atr", "min_gap_pct", "max_age_bars"]

def toJson (s : ImbalanceSettings Float) : Json :=
  .object (fields.zip [ofFloat s.gapVolatilities, ofFloat s.gapShare, ofNat s.mostAge])

def ofJson? (j : Json) : Option (ImbalanceSettings Float) := do
  match ← j.slots? fields with
  | [a, b, c] =>
    some
      { gapVolatilities := ← fallback? float? standard.gapVolatilities a
        gapShare := ← fallback? float? standard.gapShare b
        mostAge := ← fallback? (natBelow? 64) (standard (α := Float)).mostAge c }
  | _ => none

end ImbalanceSettings

namespace ConfluenceSettings

def fields : List String := ["overlap_ratio", "gap_atr"]

def toJson (s : ConfluenceSettings Float) : Json :=
  .object (fields.zip [ofFloat s.overlapShare, ofFloat s.gapVolatilities])

def ofJson? (j : Json) : Option (ConfluenceSettings Float) := do
  match ← j.slots? fields with
  | [a, b] =>
    some
      { overlapShare := ← fallback? float? standard.overlapShare a
        gapVolatilities := ← fallback? float? standard.gapVolatilities b }
  | _ => none

end ConfluenceSettings

namespace ZoneSettings

def fields : List String := ["lookback_bars", "order_block", "breaker", "imbalance", "poi"]

def toJson (s : ZoneSettings Float) : Json :=
  .object (fields.zip [ofNat s.lookback, s.orderBlock.toJson, s.breaker.toJson,
    s.imbalance.toJson, s.confluence.toJson])

def ofJson? (j : Json) : Option (ZoneSettings Float) := do
  match ← j.slots? fields with
  | [a, b, c, d, e] =>
    some
      { lookback := ← fallback? (natBelow? 64) (standard (α := Float)).lookback a
        orderBlock := ← fallback? OrderBlockSettings.ofJson? standard.orderBlock b
        breaker := ← fallback? BreakerSettings.ofJson? standard.breaker c
        imbalance := ← fallback? ImbalanceSettings.ofJson? standard.imbalance d
        confluence := ← fallback? ConfluenceSettings.ofJson? standard.confluence e }
  | _ => none

end ZoneSettings

namespace ScenarioSettings

def fields : List String := ["sweep_recent_bars", "micro_recent_bars"]

def toJson (s : ScenarioSettings) : Json :=
  .object (fields.zip [ofNat s.sweepBars, ofNat s.microBars])

def ofJson? (j : Json) : Option ScenarioSettings := do
  match ← j.slots? fields with
  | [a, b] =>
    some
      { sweepBars := ← fallback? (natBelow? 64) standard.sweepBars a
        microBars := ← fallback? (natBelow? 64) standard.microBars b }
  | _ => none

end ScenarioSettings

namespace StabilitySettings

def fields : List String :=
  ["confirm_bars", "switch_delta", "cooldown_secs", "micro_confirm_discount"]

def toJson (s : StabilitySettings Float) : Json :=
  .object (fields.zip [ofNat s.confirmations, ofFloat s.margin, .whole s.cooldown,
    ofNat s.microDiscount])

def ofJson? (j : Json) : Option (StabilitySettings Float) := do
  match ← j.slots? fields with
  | [a, b, c, d] =>
    some
      { confirmations := ← fallback? (natBelow? 32) (standard (α := Float)).confirmations a
        margin := ← fallback? float? standard.margin b
        cooldown := ← fallback? int? (standard (α := Float)).cooldown c
        microDiscount := ← fallback? (natBelow? 32) (standard (α := Float)).microDiscount d }
  | _ => none

end StabilitySettings

namespace Settings

def fields : List String :=
  ["swing", "structure", "range", "ote", "liquidity", "zones", "scenario", "stabilizer"]

def toJson (s : Settings Float) : Json :=
  .object (fields.zip [s.swing.toJson, s.structural.toJson, s.range.toJson, s.retracement.toJson,
    s.liquidity.toJson, s.zones.toJson, s.scenario.toJson, s.stability.toJson])

def ofJson? (j : Json) : Option (Settings Float) := do
  match ← j.slots? fields with
  | [a, b, c, d, e, f, g, h] =>
    some
      { swing := ← fallback? SwingSettings.ofJson? .standard a
        structural := ← fallback? StructureSettings.ofJson? .standard b
        range := ← fallback? RangeSettings.ofJson? .standard c
        retracement := ← fallback? RetracementSettings.ofJson? .standard d
        liquidity := ← fallback? LiquiditySettings.ofJson? .standard e
        zones := ← fallback? ZoneSettings.ofJson? .standard f
        scenario := ← fallback? ScenarioSettings.ofJson? .standard g
        stability := ← fallback? StabilitySettings.ofJson? .standard h }
  | _ => none

end Settings

end PriceAction
