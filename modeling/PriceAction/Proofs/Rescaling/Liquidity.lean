import PriceAction.Liquidity.State
import PriceAction.Proofs.Rescaling.Pool

/-!
# The liquidity of rescaled prices

A positive factor multiplies the prices of sweeps, pools, clusters and magnets and leaves all else.
Magnets keep their kinds, sides and strengths, and so the phase stays, with its reason
(`Liquidity.analyze_rescale`).
-/

namespace PriceAction

variable {k : Rat} (hk : 0 < k)

/-! ## Magnets -/

/-- The magnet with its prices multiplied by a factor. -/
@[simps] def Magnet.rescale (k : Rat) (m : Magnet Rat) : Magnet Rat :=
  { m with low := k * m.low, high := k * m.high, price := k * m.price }

namespace Magnet

theorem prices_rescale (pools : List (Pool Rat)) :
    (pools.map (Pool.rescale k)).map (·.price) = (pools.map (·.price)).map (k * ·) := by
  rw [List.map_map, List.map_map]
  rfl

theorem strengths_rescale (pools : List (Pool Rat)) :
    (pools.map (Pool.rescale k)).map (·.strength) = pools.map (·.strength) := by
  rw [List.map_map]
  rfl

theorem dominantRole_rescale (pools : List (Pool Rat)) :
    dominantRole (pools.map (Pool.rescale k)) = dominantRole pools := by
  have hweight (role : Role) :
      roleWeight (pools.map (Pool.rescale k)) role = roleWeight pools role := by
    rw [roleWeight, List.filter_map, strengths_rescale]
    rfl
  simp only [dominantRole, hweight]

theorem centre_rescale (pools : List (Pool Rat)) (low high : Rat) :
    centre (pools.map (Pool.rescale k)) (k * low) (k * high) = k * centre pools low high := by
  have hweighted : (pools.map (Pool.rescale k)).map (fun p => p.price * p.strength) =
      (pools.map fun p => p.price * p.strength).map (k * ·) := by
    rw [List.map_map, List.map_map]
    exact List.map_congr_left fun p _ => mul_assoc k p.price p.strength
  rw [centre, strengths_rescale, hweighted, Scalar.sum_rescale, ← mul_add, mul_div_assoc,
    mul_div_assoc, centre]
  split <;> rfl

include hk

theorem ofPools?_rescale (pools : List (Pool Rat)) :
    ofPools? (pools.map (Pool.rescale k)) = (ofPools? pools).map (rescale k) := by
  have hlow : Scalar.least ((pools.map (Pool.rescale k)).map (·.price)) =
      k * Scalar.least (pools.map (·.price)) := by
    rw [prices_rescale]
    exact Pool.outermost_rescale_of_pos hk .bearish (pools.map (·.price))
  have hhigh : Scalar.greatest ((pools.map (Pool.rescale k)).map (·.price)) =
      k * Scalar.greatest (pools.map (·.price)) := by
    rw [prices_rescale]
    exact Pool.outermost_rescale_of_pos hk .bullish (pools.map (·.price))
  have hrest (f : Rat → Rat) : (pools.map (Pool.rescale k)).map (fun p => f p.strength) =
      pools.map fun p => f p.strength := by
    rw [List.map_map]
    rfl
  rw [ofPools?, choose?_map outranks (Pool.rescale k) fun _ _ => rfl, ofPools?, Option.map_map,
    Option.map_map]
  refine congrArg (Option.map · _) (funext fun dominant => ?_)
  simp only [Function.comp_apply, hlow, hhigh, centre_rescale, dominantRole_rescale,
    List.length_map, hrest fun x => 1.0 - Scalar.clamp x 0.0 1.0]
  rfl

theorem notAfter_rescale (a b : Magnet Rat) :
    notAfter (a.rescale k) (b.rescale k) = notAfter a b := by
  simp only [notAfter, rescale_price, rescale_strength, Scalar.order_rescale hk]

theorem markPrimary_rescale (most : Nat) (magnets : List (Magnet Rat)) :
    markPrimary most (magnets.map (rescale k)) = (markPrimary most magnets).map (rescale k) := by
  have hsort (placed : List (Magnet Rat × Nat)) :
      (placed.map (Prod.map (rescale k) id)).mergeSort (fun a b => notAfter a.1 b.1) =
        (placed.mergeSort fun a b => notAfter a.1 b.1).map (Prod.map (rescale k) id) := by
    refine (List.map_mergeSort fun a _ b _ => ?_).symm
    rw [Prod.map_fst, Prod.map_fst, notAfter_rescale hk]
  simp only [markPrimary, List.zipIdx_map, List.filter_map, Function.comp_def, Prod.map_fst,
    Prod.map_snd, rescale_role, hsort, ← List.map_take, List.map_map, id]
  refine List.map_congr_left fun (m, i) _ => ?_
  rw [apply_ite (rescale k)]
  rfl

theorem ofPools_rescale (pools : List (Pool Rat)) (tolerance : Rat) (mostPrimary : Nat) :
    ofPools (pools.map (Pool.rescale k)) tolerance mostPrimary =
      (ofPools pools tolerance mostPrimary).map (rescale k) := by
  rw [ofPools, clusters_rescale hk (·.price) (Pool.rescale k) fun _ => rfl, List.filterMap_map,
    ofPools, ← markPrimary_rescale hk, List.map_filterMap]
  simp only [Function.comp_def, ofPools?_rescale hk]

end Magnet

/-! ## The phase -/

/-- The view of rescaled prices. -/
@[simps] def PhaseView.rescale (k : Rat) (view : PhaseView Rat) : PhaseView Rat where
  bars := view.bars.map (Bar.rescale k)
  structural := view.structural.rescale k
  pools := view.pools.map (Pool.rescale k)
  magnets := view.magnets.map (Magnet.rescale k)
  sweeps := view.sweeps.map (Sweep.rescale k)

include hk in
theorem crossings_rescale (bars : List (Bar Rat)) (level : Rat) :
    crossings (bars.map (Bar.rescale k)) (k * level) = crossings bars level := by
  simp only [crossings, adjacent_map, List.countP_map, Function.comp_def, Prod.map_fst,
    Prod.map_snd, Bar.close_rescale, mul_lt_mul_iff_of_pos_left hk]

namespace Phase

include hk

theorem strongWick?_rescale (settings : LiquiditySettings Rat) (range : TradingRange Rat)
    (side : Direction) (bar : Bar Rat) :
    strongWick? settings (range.rescale k) side (bar.rescale k) =
      strongWick? settings range side bar := by
  cases side
  all_goals
    simp only [strongWick?, TradingRange.extreme_rescale_of_pos hk, Bar.wick_rescale hk,
      Bar.range_rescale_of_pos hk, Bar.extreme_rescale_of_pos hk, Bar.close_rescale,
      Direction.beyond_rescale_of_pos hk, mul_div_mul_left _ _ hk.ne',
      mul_le_mul_iff_of_pos_left hk]

theorem barSweep?_rescale (settings : LiquiditySettings Rat) (range : TradingRange Rat)
    (bar : Bar Rat) (index : Nat) :
    barSweep? settings (range.rescale k) (bar.rescale k) index =
      barSweep? settings range bar index := by
  simp only [barSweep?, strongWick?_rescale hk, Bar.range_rescale_of_pos hk, Scalar.zero_eq,
    Scalar.rescale_nonpos_iff hk]

theorem rangeSweep?_rescale (settings : LiquiditySettings Rat) (view : PhaseView Rat)
    (range : TradingRange Rat) :
    rangeSweep? settings (view.rescale k) (range.rescale k) = rangeSweep? settings view range := by
  simp only [rangeSweep?, PhaseView.rescale_bars, PhaseView.rescale_sweeps, List.length_map,
    List.zipIdx_map, ← List.map_drop, ← List.map_reverse, List.findSome?_map, Function.comp_def,
    Prod.map_fst, Prod.map_snd, id, barSweep?_rescale hk, List.find?_map, Option.map_map,
    Sweep.rescale_barIndex, Sweep.rescale_wickRatio, Sweep.rescale_level, Sweep.rescale_side,
    TradingRange.extreme_rescale_of_pos hk, near_rescale hk]

theorem manipulation?_rescale (settings : LiquiditySettings Rat) (view : PhaseView Rat) :
    manipulation? settings (view.rescale k) = manipulation? settings view := by
  simp only [manipulation?, PhaseView.rescale_structural, Structure.rescale_activeRange,
    Option.bind_map, Function.comp_def, rangeSweep?_rescale hk]

theorem distribution?_rescale (settings : LiquiditySettings Rat) (view : PhaseView Rat) :
    distribution? settings (view.rescale k) = distribution? settings view := by
  simp only [distribution?, PhaseView.rescale_bars, PhaseView.rescale_structural,
    PhaseView.rescale_pools, PhaseView.rescale_magnets, List.length_map, List.any_map,
    List.isEmpty_map, Function.comp_def, Pool.rescale_firstIndex, Structure.rescale_trend,
    Structure.rescale_details, StructureMeta.rescale_driftEfficiency, turned_of_pos hk]

theorem accumulation?_rescale (view : PhaseView Rat) :
    accumulation? (view.rescale k) = accumulation? view := by
  simp only [accumulation?, PhaseView.rescale_bars, PhaseView.rescale_structural,
    PhaseView.rescale_magnets, Structure.rescale_activeRange, Option.bind_map, Function.comp_def,
    TradingRange.window_rescale, TradingRange.rescale_equilibrium, TradingRange.rescale_state,
    turned_of_pos hk, crossings_rescale hk, List.length_map]

theorem classify_rescale (settings : LiquiditySettings Rat) (view : PhaseView Rat) :
    classify settings (view.rescale k) = classify settings view := by
  rw [classify, manipulation?_rescale hk, distribution?_rescale hk, accumulation?_rescale hk,
    classify]

end Phase

/-! ## The liquidity -/

/-- The liquidity with its prices multiplied by a factor. -/
@[simps] def Liquidity.rescale (k : Rat) (l : Liquidity Rat) : Liquidity Rat :=
  { l with
    pools := l.pools.map (Pool.rescale k)
    magnets := l.magnets.map (Magnet.rescale k)
    sweeps := l.sweeps.map (Sweep.rescale k)
    wickClusters := l.wickClusters.map (WickCluster.rescale k) }

/-- The range of the day before with its prices multiplied by a factor. -/
def DailyRange.rescale (k : Rat) (r : DailyRange Rat) : DailyRange Rat where
  high := k * r.high
  low := k * r.low

/-- The hints with their prices multiplied by a factor. -/
@[simps] def MarketContext.rescale (k : Rat) (c : MarketContext Rat) : MarketContext Rat :=
  { c with dailyRange := c.dailyRange.map (DailyRange.rescale k) }

namespace Liquidity

include hk

theorem poolsByKind_rescale (bars : List (Bar Rat)) (structural : Structure Rat)
    (context : MarketContext Rat) (settings : LiquiditySettings Rat) (sweeps : List (Sweep Rat))
    (wicks : List (WickCluster Rat)) :
    poolsByKind (bars.map (Bar.rescale k)) (structural.rescale k) (context.rescale k) settings
        (sweeps.map (Sweep.rescale k)) (wicks.map (WickCluster.rescale k)) =
      (poolsByKind bars structural context settings sweeps wicks).map (Pool.rescale k) := by
  simp only [poolsByKind, Structure.rescale_bias, turned_of_pos hk, Structure.rescale_swings,
    Structure.rescale_activeRange, Pool.equalLevels_rescale hk, Pool.trendLiquidity?_rescale hk,
    Option.toList_map,
    Pool.sessionExtremes_rescale hk, MarketContext.rescale_sessions, List.map_append, List.map_map,
    List.filterMap_map, List.map_filterMap, Function.comp_def, Pool.ofSweep_rescale,
    Pool.ofWickCluster?_rescale]
  cases structural.activeRange with
  | none => rfl
  | some range => simp only [Option.map_some, Pool.rangeExtremes_rescale hk]

theorem analyze_rescale (bars : List (Bar Rat)) (structural : Structure Rat)
    (context : MarketContext Rat) (settings : LiquiditySettings Rat) :
    analyze (bars.map (Bar.rescale k)) (structural.rescale k) (context.rescale k) settings =
      (analyze bars structural context settings).rescale k := by
  have hsort (pools : List (Pool Rat)) : (pools.map (Pool.rescale k)).mergeSort Pool.notAfter =
      (pools.mergeSort Pool.notAfter).map (Pool.rescale k) := by
    refine (List.map_mergeSort fun a _ b _ => ?_).symm
    rw [Pool.notAfter_rescale hk]
  simp only [analyze, Structure.rescale_swings, Sweep.detect_rescale hk,
    Pool.wickClusters_rescale hk, poolsByKind_rescale hk, hsort, Magnet.ofPools_rescale hk]
  generalize List.mergeSort _ _ = pools
  generalize Magnet.ofPools pools _ _ = magnets
  generalize Sweep.detect bars _ = sweeps
  have hphase := Phase.classify_rescale hk settings ⟨bars, structural, pools, magnets, sweeps⟩
  rw [PhaseView.rescale] at hphase
  rw [hphase]
  rfl

end Liquidity

end PriceAction
