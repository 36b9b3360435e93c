import PriceAction.Proofs.Json.Record
import PriceAction.Settings.Codec

/-!
# Settings are read back, with standard values for what is left out

A record of settings is writable when its whole numbers fit their words and its reals are ordinary
(`IsWritable`). Of a record that is written and then pruned, the fields that are kept are read back
and the others have their standard values (`keeping`), up to the whole of the settings
(`Settings.ofJson?_pruned`).
-/

namespace PriceAction

open Json (fallback?_float fallback?_int fallback?_keptSlot fallback?_nat keptOr slots?_pruned
  within)

variable (keep : List String → Bool)

namespace SwingSettings

/-- Whether every number of the record has a place in a file. -/
structure IsWritable (s : SwingSettings) : Prop where
  window : s.window < pow2 64
  strengthCap : s.strengthCap < pow2 32

/-- The record with the standard value in every field that is not kept. -/
def keeping (s : SwingSettings) : SwingSettings where
  window := keptOr keep "window" s.window standard.window
  strengthCap := keptOr keep "strength_cap" s.strengthCap standard.strengthCap

theorem ofJson?_pruned {s : SwingSettings} (h : s.IsWritable) :
    ofJson? (s.toJson.pruned keep) = some (s.keeping keep) := by
  rw [toJson, ofJson?, slots?_pruned (by decide) rfl]
  simp [fields, fallback?_nat h.window, fallback?_nat h.strengthCap, keeping]

end SwingSettings

namespace StructureSettings

structure IsWritable (s : StructureSettings Float) : Prop where
  volatilityPeriod : s.volatilityPeriod < pow2 64
  breakVolatilities : s.breakVolatilities.isFinite = true
  breakShare : s.breakShare.isFinite = true
  trendLabels : s.trendLabels < pow2 64
  lookback : s.lookback < pow2 64
  driftEfficiency : s.driftEfficiency.isFinite = true

def keeping (s : StructureSettings Float) : StructureSettings Float where
  volatilityPeriod :=
    keptOr keep "atr_period" s.volatilityPeriod (standard (α := Float)).volatilityPeriod
  breakVolatilities :=
    keptOr keep "break_atr_multiple" s.breakVolatilities standard.breakVolatilities
  breakShare := keptOr keep "break_pct_multiple" s.breakShare standard.breakShare
  trendLabels := keptOr keep "trend_labels" s.trendLabels (standard (α := Float)).trendLabels
  lookback := keptOr keep "max_lookback_bars" s.lookback (standard (α := Float)).lookback
  driftEfficiency := keptOr keep "drift_efficiency" s.driftEfficiency standard.driftEfficiency

theorem ofJson?_pruned {s : StructureSettings Float} (h : s.IsWritable) :
    ofJson? (s.toJson.pruned keep) = some (s.keeping keep) := by
  rw [toJson, ofJson?, slots?_pruned (by decide) rfl]
  simp [fields, fallback?_nat h.volatilityPeriod, fallback?_float h.breakVolatilities,
    fallback?_float h.breakShare, fallback?_nat h.trendLabels, fallback?_nat h.lookback,
    fallback?_float h.driftEfficiency, keeping]

end StructureSettings

namespace RangeSettings

structure IsWritable (s : RangeSettings) : Prop where
  leastBars : s.leastBars < pow2 64
  mostBars : s.mostBars < pow2 64

def keeping (s : RangeSettings) : RangeSettings where
  leastBars := keptOr keep "min_range_bars" s.leastBars standard.leastBars
  mostBars := keptOr keep "max_range_bars" s.mostBars standard.mostBars

theorem ofJson?_pruned {s : RangeSettings} (h : s.IsWritable) :
    ofJson? (s.toJson.pruned keep) = some (s.keeping keep) := by
  rw [toJson, ofJson?, slots?_pruned (by decide) rfl]
  simp [fields, fallback?_nat h.leastBars, fallback?_nat h.mostBars, keeping]

end RangeSettings

namespace RetracementSettings

structure IsWritable (s : RetracementSettings Float) : Prop where
  legVolatilities : s.legVolatilities.isFinite = true
  nearShare : s.nearShare.isFinite = true
  farShare : s.farShare.isFinite = true
  mostPrimary : s.mostPrimary < pow2 64

def keeping (s : RetracementSettings Float) : RetracementSettings Float where
  legVolatilities := keptOr keep "leg_min_amplitude_atr" s.legVolatilities standard.legVolatilities
  nearShare := keptOr keep "fib_lower" s.nearShare standard.nearShare
  farShare := keptOr keep "fib_upper" s.farShare standard.farShare
  mostPrimary := keptOr keep "max_zones_per_side" s.mostPrimary (standard (α := Float)).mostPrimary

theorem ofJson?_pruned {s : RetracementSettings Float} (h : s.IsWritable) :
    ofJson? (s.toJson.pruned keep) = some (s.keeping keep) := by
  rw [toJson, ofJson?, slots?_pruned (by decide) rfl]
  simp [fields, fallback?_float h.legVolatilities, fallback?_float h.nearShare,
    fallback?_float h.farShare, fallback?_nat h.mostPrimary, keeping]

end RetracementSettings

namespace LiquiditySettings

structure IsWritable (s : LiquiditySettings Float) : Prop where
  tolerance : s.tolerance.isFinite = true
  wickShare : s.wickShare.isFinite = true
  wickTouches : s.wickTouches < pow2 64
  strongWickShare : s.strongWickShare.isFinite = true
  mostPrimary : s.mostPrimary < pow2 64
  recentBars : s.recentBars < pow2 64
  cleanEfficiency : s.cleanEfficiency.isFinite = true

def keeping (s : LiquiditySettings Float) : LiquiditySettings Float where
  tolerance := keptOr keep "equal_level_tolerance_pct" s.tolerance standard.tolerance
  wickShare := keptOr keep "wick_min_ratio" s.wickShare standard.wickShare
  wickTouches :=
    keptOr keep "wick_cluster_min_touches" s.wickTouches (standard (α := Float)).wickTouches
  strongWickShare := keptOr keep "strong_wick_ratio" s.strongWickShare standard.strongWickShare
  mostPrimary :=
    keptOr keep "max_primary_magnets" s.mostPrimary (standard (α := Float)).mostPrimary
  recentBars := keptOr keep "recent_bars" s.recentBars (standard (α := Float)).recentBars
  cleanEfficiency :=
    keptOr keep "distribution_efficiency" s.cleanEfficiency standard.cleanEfficiency

theorem ofJson?_pruned {s : LiquiditySettings Float} (h : s.IsWritable) :
    ofJson? (s.toJson.pruned keep) = some (s.keeping keep) := by
  rw [toJson, ofJson?, slots?_pruned (by decide) rfl]
  simp [fields, fallback?_float h.tolerance, fallback?_float h.wickShare,
    fallback?_nat h.wickTouches, fallback?_float h.strongWickShare, fallback?_nat h.mostPrimary,
    fallback?_nat h.recentBars, fallback?_float h.cleanEfficiency, keeping]

end LiquiditySettings

namespace OrderBlockSettings

structure IsWritable (s : OrderBlockSettings Float) : Prop where
  bodyZoneShare : s.bodyZoneShare.isFinite = true
  leastBodyShare : s.leastBodyShare.isFinite = true
  prelude : s.prelude < pow2 64
  distanceVolatilities : s.distanceVolatilities.isFinite = true

def keeping (s : OrderBlockSettings Float) : OrderBlockSettings Float where
  bodyZoneShare := keptOr keep "body_domination_pct" s.bodyZoneShare standard.bodyZoneShare
  leastBodyShare := keptOr keep "body_min_pct" s.leastBodyShare standard.leastBodyShare
  prelude := keptOr keep "prelude_max_bars" s.prelude (standard (α := Float)).prelude
  distanceVolatilities :=
    keptOr keep "max_distance_atr" s.distanceVolatilities standard.distanceVolatilities

theorem ofJson?_pruned {s : OrderBlockSettings Float} (h : s.IsWritable) :
    ofJson? (s.toJson.pruned keep) = some (s.keeping keep) := by
  rw [toJson, ofJson?, slots?_pruned (by decide) rfl]
  simp [fields, fallback?_float h.bodyZoneShare, fallback?_float h.leastBodyShare,
    fallback?_nat h.prelude, fallback?_float h.distanceVolatilities, keeping]

end OrderBlockSettings

namespace BreakerSettings

structure IsWritable (s : BreakerSettings Float) : Prop where
  delay : s.delay < pow2 64
  spanTolerance : s.spanTolerance.isFinite = true
  edgeTolerance : s.edgeTolerance.isFinite = true
  breakVolatilities : s.breakVolatilities.isFinite = true

def keeping (s : BreakerSettings Float) : BreakerSettings Float where
  delay := keptOr keep "max_sweep_delay" s.delay (standard (α := Float)).delay
  spanTolerance := keptOr keep "level_tolerance_span_ratio" s.spanTolerance standard.spanTolerance
  edgeTolerance := keptOr keep "level_tolerance_pct" s.edgeTolerance standard.edgeTolerance
  breakVolatilities :=
    keptOr keep "min_displacement_atr" s.breakVolatilities standard.breakVolatilities

theorem ofJson?_pruned {s : BreakerSettings Float} (h : s.IsWritable) :
    ofJson? (s.toJson.pruned keep) = some (s.keeping keep) := by
  rw [toJson, ofJson?, slots?_pruned (by decide) rfl]
  simp [fields, fallback?_nat h.delay, fallback?_float h.spanTolerance,
    fallback?_float h.edgeTolerance, fallback?_float h.breakVolatilities, keeping]

end BreakerSettings

namespace ImbalanceSettings

structure IsWritable (s : ImbalanceSettings Float) : Prop where
  gapVolatilities : s.gapVolatilities.isFinite = true
  gapShare : s.gapShare.isFinite = true
  mostAge : s.mostAge < pow2 64

def keeping (s : ImbalanceSettings Float) : ImbalanceSettings Float where
  gapVolatilities := keptOr keep "min_gap_atr" s.gapVolatilities standard.gapVolatilities
  gapShare := keptOr keep "min_gap_pct" s.gapShare standard.gapShare
  mostAge := keptOr keep "max_age_bars" s.mostAge (standard (α := Float)).mostAge

theorem ofJson?_pruned {s : ImbalanceSettings Float} (h : s.IsWritable) :
    ofJson? (s.toJson.pruned keep) = some (s.keeping keep) := by
  rw [toJson, ofJson?, slots?_pruned (by decide) rfl]
  simp [fields, fallback?_float h.gapVolatilities, fallback?_float h.gapShare,
    fallback?_nat h.mostAge, keeping]

end ImbalanceSettings

namespace ConfluenceSettings

structure IsWritable (s : ConfluenceSettings Float) : Prop where
  overlapShare : s.overlapShare.isFinite = true
  gapVolatilities : s.gapVolatilities.isFinite = true

def keeping (s : ConfluenceSettings Float) : ConfluenceSettings Float where
  overlapShare := keptOr keep "overlap_ratio" s.overlapShare standard.overlapShare
  gapVolatilities := keptOr keep "gap_atr" s.gapVolatilities standard.gapVolatilities

theorem ofJson?_pruned {s : ConfluenceSettings Float} (h : s.IsWritable) :
    ofJson? (s.toJson.pruned keep) = some (s.keeping keep) := by
  rw [toJson, ofJson?, slots?_pruned (by decide) rfl]
  simp [fields, fallback?_float h.overlapShare, fallback?_float h.gapVolatilities, keeping]

end ConfluenceSettings

namespace ZoneSettings

structure IsWritable (s : ZoneSettings Float) : Prop where
  lookback : s.lookback < pow2 64
  orderBlock : s.orderBlock.IsWritable
  breaker : s.breaker.IsWritable
  imbalance : s.imbalance.IsWritable
  confluence : s.confluence.IsWritable

def keeping (s : ZoneSettings Float) : ZoneSettings Float where
  lookback := keptOr keep "lookback_bars" s.lookback (standard (α := Float)).lookback
  orderBlock :=
    keptOr keep "order_block" (s.orderBlock.keeping (within keep "order_block")) standard.orderBlock
  breaker := keptOr keep "breaker" (s.breaker.keeping (within keep "breaker")) standard.breaker
  imbalance :=
    keptOr keep "imbalance" (s.imbalance.keeping (within keep "imbalance")) standard.imbalance
  confluence := keptOr keep "poi" (s.confluence.keeping (within keep "poi")) standard.confluence

theorem ofJson?_pruned {s : ZoneSettings Float} (h : s.IsWritable) :
    ofJson? (s.toJson.pruned keep) = some (s.keeping keep) := by
  rw [toJson, ofJson?, slots?_pruned (by decide) rfl]
  simp [fields, fallback?_nat h.lookback,
    fallback?_keptSlot (OrderBlockSettings.ofJson?_pruned _ h.orderBlock),
    fallback?_keptSlot (BreakerSettings.ofJson?_pruned _ h.breaker),
    fallback?_keptSlot (ImbalanceSettings.ofJson?_pruned _ h.imbalance),
    fallback?_keptSlot (ConfluenceSettings.ofJson?_pruned _ h.confluence), keeping]

end ZoneSettings

namespace ScenarioSettings

structure IsWritable (s : ScenarioSettings) : Prop where
  sweepBars : s.sweepBars < pow2 64
  microBars : s.microBars < pow2 64

def keeping (s : ScenarioSettings) : ScenarioSettings where
  sweepBars := keptOr keep "sweep_recent_bars" s.sweepBars standard.sweepBars
  microBars := keptOr keep "micro_recent_bars" s.microBars standard.microBars

theorem ofJson?_pruned {s : ScenarioSettings} (h : s.IsWritable) :
    ofJson? (s.toJson.pruned keep) = some (s.keeping keep) := by
  rw [toJson, ofJson?, slots?_pruned (by decide) rfl]
  simp [fields, fallback?_nat h.sweepBars, fallback?_nat h.microBars, keeping]

end ScenarioSettings

namespace StabilitySettings

structure IsWritable (s : StabilitySettings Float) : Prop where
  confirmations : s.confirmations < pow2 32
  margin : s.margin.isFinite = true
  cooldown : -(pow2 63 : Int) ≤ s.cooldown ∧ s.cooldown < pow2 63
  microDiscount : s.microDiscount < pow2 32

def keeping (s : StabilitySettings Float) : StabilitySettings Float where
  confirmations := keptOr keep "confirm_bars" s.confirmations (standard (α := Float)).confirmations
  margin := keptOr keep "switch_delta" s.margin standard.margin
  cooldown := keptOr keep "cooldown_secs" s.cooldown (standard (α := Float)).cooldown
  microDiscount :=
    keptOr keep "micro_confirm_discount" s.microDiscount (standard (α := Float)).microDiscount

theorem ofJson?_pruned {s : StabilitySettings Float} (h : s.IsWritable) :
    ofJson? (s.toJson.pruned keep) = some (s.keeping keep) := by
  rw [toJson, ofJson?, slots?_pruned (by decide) rfl]
  simp [fields, fallback?_nat h.confirmations, fallback?_float h.margin, fallback?_int h.cooldown,
    fallback?_nat h.microDiscount, keeping]

end StabilitySettings

namespace Settings

structure IsWritable (s : Settings Float) : Prop where
  swing : s.swing.IsWritable
  structural : s.structural.IsWritable
  range : s.range.IsWritable
  retracement : s.retracement.IsWritable
  liquidity : s.liquidity.IsWritable
  zones : s.zones.IsWritable
  scenario : s.scenario.IsWritable
  stability : s.stability.IsWritable

def keeping (s : Settings Float) : Settings Float where
  swing := keptOr keep "swing" (s.swing.keeping (within keep "swing")) .standard
  structural := keptOr keep "structure" (s.structural.keeping (within keep "structure")) .standard
  range := keptOr keep "range" (s.range.keeping (within keep "range")) .standard
  retracement := keptOr keep "ote" (s.retracement.keeping (within keep "ote")) .standard
  liquidity := keptOr keep "liquidity" (s.liquidity.keeping (within keep "liquidity")) .standard
  zones := keptOr keep "zones" (s.zones.keeping (within keep "zones")) .standard
  scenario := keptOr keep "scenario" (s.scenario.keeping (within keep "scenario")) .standard
  stability := keptOr keep "stabilizer" (s.stability.keeping (within keep "stabilizer")) .standard

theorem ofJson?_pruned {s : Settings Float} (h : s.IsWritable) :
    ofJson? (s.toJson.pruned keep) = some (s.keeping keep) := by
  rw [toJson, ofJson?, slots?_pruned (by decide) rfl]
  simp [fields, fallback?_keptSlot (SwingSettings.ofJson?_pruned _ h.swing),
    fallback?_keptSlot (StructureSettings.ofJson?_pruned _ h.structural),
    fallback?_keptSlot (RangeSettings.ofJson?_pruned _ h.range),
    fallback?_keptSlot (RetracementSettings.ofJson?_pruned _ h.retracement),
    fallback?_keptSlot (LiquiditySettings.ofJson?_pruned _ h.liquidity),
    fallback?_keptSlot (ZoneSettings.ofJson?_pruned _ h.zones),
    fallback?_keptSlot (ScenarioSettings.ofJson?_pruned _ h.scenario),
    fallback?_keptSlot (StabilitySettings.ofJson?_pruned _ h.stability), keeping]

theorem isWritable_standard : (standard : Settings Float).IsWritable where
  swing := ⟨by decide, by decide⟩
  structural := ⟨by decide, by decide, by decide, by decide, by decide,
    by decide⟩
  range := ⟨by decide, by decide⟩
  retracement := ⟨by decide, by decide, by decide, by decide⟩
  liquidity := ⟨by decide, by decide, by decide, by decide, by decide,
    by decide, by decide⟩
  zones :=
    { lookback := by decide
      orderBlock := ⟨by decide, by decide, by decide, by decide⟩
      breaker := ⟨by decide, by decide, by decide, by decide⟩
      imbalance := ⟨by decide, by decide, by decide⟩
      confluence := ⟨by decide, by decide⟩ }
  scenario := ⟨by decide, by decide⟩
  stability := ⟨by decide, by decide, by decide, by decide⟩

/-- Settings that are written whole are read back. -/
theorem ofJson?_toJson {s : Settings Float} (h : s.IsWritable) : ofJson? s.toJson = some s := by
  have hall := ofJson?_pruned (fun _ => true) h
  rwa [Json.pruned_all] at hall

end Settings

end PriceAction
