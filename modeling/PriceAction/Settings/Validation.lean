import PriceAction.Decimal.Notation
import PriceAction.Scalar.Floating
import PriceAction.Settings.Basic

/-!
# Valid settings

Settings are checked field by field; the first fault in the order of the checks is reported.
-/

namespace PriceAction

/-- What is wrong with a setting. -/
inductive SettingsFault (α : Type) where
  | notPositive (field : String)
  /-- The value lies outside the unit interval. -/
  | outOfRange (field : String) (value : α)
  | invertedBand (lower upper : α)

namespace Settings

variable {α : Type} [Scalar α]

def positive? (field : String) (n : Nat) : Option (SettingsFault α) :=
  if n = 0 then some (.notPositive field) else none

def unit? (field : String) (x : α) : Option (SettingsFault α) :=
  if Scalar.between x 0.0 1.0 then none else some (.outOfRange field x)

/-- The checks in their order, each with the fault it found. -/
def checks (s : Settings α) : List (Option (SettingsFault α)) :=
  [positive? "swing.window" s.swing.window,
    positive? "structure.atr_period" s.structural.volatilityPeriod,
    positive? "structure.trend_labels" s.structural.trendLabels,
    positive? "range.min_range_bars" s.range.leastBars,
    positive? "zones.lookback_bars" s.zones.lookback,
    positive? "stabilizer.confirm_bars" s.stability.confirmations,
    unit? "ote.fib_lower" s.retracement.nearShare,
    unit? "ote.fib_upper" s.retracement.farShare,
    if s.retracement.farShare ≤ s.retracement.nearShare then
      some (.invertedBand s.retracement.nearShare s.retracement.farShare)
    else none,
    unit? "zones.order_block.body_domination_pct" s.zones.orderBlock.bodyZoneShare,
    unit? "zones.order_block.body_min_pct" s.zones.orderBlock.leastBodyShare,
    unit? "zones.poi.overlap_ratio" s.zones.confluence.overlapShare,
    unit? "liquidity.wick_min_ratio" s.liquidity.wickShare,
    unit? "stabilizer.switch_delta" s.stability.margin,
    if s.liquidity.tolerance ≤ 0.0 then some (.notPositive "liquidity.equal_level_tolerance_pct")
    else none]

/-- The first fault, if there is one. -/
def fault? (s : Settings α) : Option (SettingsFault α) :=
  s.checks.findSome? id

end Settings

/-- The wording of a fault. -/
def SettingsFault.message : SettingsFault Float → String
  | notPositive field => field ++ " must be greater than zero"
  | outOfRange field value =>
    field ++ " must lie in [0, 1], got " ++ Decimal.Layout.plain.float value
  | invertedBand lower upper =>
    "OTE band is inverted: lower " ++ Decimal.Layout.plain.float lower ++ " >= upper " ++
      Decimal.Layout.plain.float upper

end PriceAction
