import PriceAction.Liquidity.Phase

/-!
# The liquidity of a series

All pools in the order of their prices, the magnets they form, the sweeps and wick clusters behind
them, and the phase.
-/

namespace PriceAction

structure Liquidity (α : Type) where
  pools : List (Pool α)
  magnets : List (Magnet α)
  phase : Phase
  tolerance : α
  sweeps : List (Sweep α)
  wickClusters : List (WickCluster α)
  phaseReasons : List String

namespace Liquidity

variable {α : Type} [Scalar α]

/-- The pools of a series before sorting, kind by kind. -/
def poolsByKind (bars : List (Bar α)) (structural : Structure α) (context : MarketContext α)
    (settings : LiquiditySettings α) (sweeps : List (Sweep α)) (wicks : List (WickCluster α)) :
    List (Pool α) :=
  let bias := structural.bias
  Pool.equalLevels bars structural.swings bias settings ++
    (Pool.trendLiquidity? structural).toList ++
    (match structural.activeRange with
      | some range => Pool.rangeExtremes bars range bias settings
      | none => []) ++
    sweeps.map (Pool.ofSweep bars bias) ++
    wicks.filterMap (Pool.ofWickCluster? bars bias) ++
    Pool.sessionExtremes bars context.sessions bias

/-- The liquidity of the series that a structure was found in. -/
def analyze (bars : List (Bar α)) (structural : Structure α) (context : MarketContext α)
    (settings : LiquiditySettings α) : Liquidity α :=
  let sweeps := Sweep.detect bars structural.swings
  let wicks := Pool.wickClusters bars settings
  let pools := (poolsByKind bars structural context settings sweeps wicks).mergeSort Pool.notAfter
  let magnets := Magnet.ofPools pools settings.tolerance settings.mostPrimary
  let (phase, reasons) := Phase.classify settings
    { bars := bars, structural := structural, pools := pools, magnets := magnets, sweeps := sweeps }
  { pools := pools
    magnets := magnets
    phase := phase
    tolerance := settings.tolerance
    sweeps := sweeps
    wickClusters := wicks
    phaseReasons := reasons }

theorem sweeps_analyze (bars : List (Bar α)) (structural : Structure α) (context : MarketContext α)
    (settings : LiquiditySettings α) :
    (analyze bars structural context settings).sweeps = Sweep.detect bars structural.swings :=
  rfl

end Liquidity

end PriceAction
