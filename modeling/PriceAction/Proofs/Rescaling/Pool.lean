import PriceAction.Liquidity.Pool
import PriceAction.Liquidity.Sweep
import PriceAction.Proofs.Rescaling.Structure

/-!
# The sweeps and pools of rescaled prices

Tolerances are shares of prices, wicks are shares of ranges, and what is sorted by price stays in
its order. So rescaled prices form the same clusters (`clusters_rescale`) and gather in the same
pools, and the same bars sweep them (`Sweep.detect_rescale`).
-/

namespace PriceAction

variable {k : Rat} (hk : 0 < k)

/-! ## Clusters -/

section Clusters

include hk

theorem Scalar.order_rescale (x y : Rat) : order (k * x) (k * y) = order x y := by
  rw [order_eq, order_eq]
  simp only [mul_lt_mul_iff_of_pos_left hk]

theorem near_rescale (tolerance x anchor : Rat) :
    near tolerance (k * x) (k * anchor) = near tolerance x anchor := by
  rw [near, Scalar.abs_sub_rescale, Scalar.abs_rescale, abs_of_pos hk, mul_left_comm, near]
  exact decide_eq_decide.2 (mul_le_mul_iff_of_pos_left hk)

variable {ι : Type} (price : ι → Rat) (f : ι → ι) (hprice : ∀ x, price (f x) = k * price x)
include hprice

theorem sortByPrice_rescale (items : List ι) :
    sortByPrice price (items.map f) = (sortByPrice price items).map f := by
  refine (List.map_mergeSort fun x _ y _ => ?_).symm
  rw [hprice, hprice, Scalar.order_rescale hk]

theorem cutClusters_rescale (tolerance : Rat) (items : List ι) :
    cutClusters price tolerance (items.map f) =
      (cutClusters price tolerance items).map (List.map f) := by
  induction items using cutClusters.induct price tolerance with
  | case1 => rw [List.map_nil, cutClusters, List.map_nil]
  | case2 x rest ih =>
    have hnear : (fun y => near tolerance (price y) (price (f x))) ∘ f =
        fun y => near tolerance (price y) (price x) := by
      funext y
      rw [Function.comp_apply, hprice, hprice, near_rescale hk]
    rw [List.map_cons, cutClusters, List.takeWhile_map, List.dropWhile_map, hnear, ih, cutClusters,
      List.map_cons, List.map_cons]

theorem clusters_rescale (tolerance : Rat) (items : List ι) :
    clusters price tolerance (items.map f) =
      (clusters price tolerance items).map (List.map f) := by
  rw [clusters, sortByPrice_rescale hk price f hprice, cutClusters_rescale hk price f hprice,
    clusters]

end Clusters

/-! ## Sweeps -/

/-- The sweep with its price multiplied by a factor. -/
@[simps] def Sweep.rescale (k : Rat) (s : Sweep Rat) : Sweep Rat :=
  { s with level := k * s.level }

namespace Sweep

include hk

theorem firstThrough?_rescale (side : Direction) (level : Rat) (index : Nat)
    (bars : List (Bar Rat)) :
    firstThrough? side (k * level) index (bars.map (Bar.rescale k)) =
      (firstThrough? side level index bars).map
        (Prod.map id (Prod.map (Bar.rescale k) (List.map (Bar.rescale k)))) := by
  induction bars generalizing index with
  | nil => rfl
  | cons bar after ih =>
    rw [List.map_cons, firstThrough?, firstThrough?, Bar.extreme_rescale_of_pos hk,
      Direction.beyond_rescale_of_pos hk, ih, apply_ite (Option.map _)]
    rfl

theorem closesBack_rescale (side : Direction) (level : Rat) (bar : Bar Rat) :
    closesBack side (k * level) (bar.rescale k) = closesBack side level bar :=
  Direction.beyond_rescale_of_pos hk ..

theorem ofSwing?_rescale (bars : List (Bar Rat)) (s : Swing Rat) :
    ofSwing? (bars.map (Bar.rescale k)) (s.rescale k) = (ofSwing? bars s).map (rescale k) := by
  simp only [ofSwing?, Swing.rescale_kind, Swing.rescale_price, Swing.rescale_index,
    turned_of_pos hk, ← List.map_drop, firstThrough?_rescale hk]
  cases firstThrough? s.kind.side s.price (s.index + 1) (bars.drop (s.index + 1)) with
  | none => rfl
  | some hit =>
    obtain ⟨j, bar, after⟩ := hit
    simp only [Option.map_some, Prod.map_apply, id, closesBack_rescale hk, List.head?_map,
      Option.map_map, Function.comp_def, Bar.wick_rescale hk, Bar.share_rescale hk,
      Bar.time_rescale]
    rfl

theorem detect_rescale (bars : List (Bar Rat)) (swings : List (Swing Rat)) :
    detect (bars.map (Bar.rescale k)) (swings.map (Swing.rescale k)) =
      (detect bars swings).map (rescale k) := by
  have hfound : (swings.map (Swing.rescale k)).filterMap (ofSwing? (bars.map (Bar.rescale k))) =
      (swings.filterMap (ofSwing? bars)).map (rescale k) := by
    rw [List.filterMap_map, List.map_filterMap]
    exact congrArg (List.filterMap · swings) (funext (ofSwing?_rescale hk bars))
  rw [detect, hfound, detect]
  refine (List.map_mergeSort fun x _ y _ => ?_).symm
  rfl

end Sweep

/-! ## Pools -/

/-- The pool with its price multiplied by a factor. -/
@[simps] def Pool.rescale (k : Rat) (p : Pool Rat) : Pool Rat :=
  { p with price := k * p.price }

/-- The cluster with its price multiplied by a factor. -/
@[simps] def WickCluster.rescale (k : Rat) (c : WickCluster Rat) : WickCluster Rat :=
  { c with price := k * c.price }

include hk in
theorem Structure.lastSwing?_rescale (s : Structure Rat) (kind : SwingKind) :
    (s.rescale k).lastSwing? kind = (s.lastSwing? kind).map (Swing.rescale k) := by
  simp only [lastSwing?, rescale_swings, ← List.map_reverse, List.find?_map, Function.comp_def,
    Swing.rescale_kind, turned_of_pos hk]

namespace Pool

theorem timeAt_rescale (bars : List (Bar Rat)) (index : Nat) (fallback : Instant) :
    timeAt (bars.map (Bar.rescale k)) index fallback = timeAt bars index fallback := by
  rw [timeAt, List.getElem?_map, Option.map_map]
  rfl

theorem ofSweep_rescale (bars : List (Bar Rat)) (bias : Bias) (s : Sweep Rat) :
    ofSweep (bars.map (Bar.rescale k)) bias (s.rescale k) = (ofSweep bars bias s).rescale k := by
  rw [ofSweep, timeAt_rescale]
  rfl

theorem ofWickCluster?_rescale (bars : List (Bar Rat)) (bias : Bias) (c : WickCluster Rat) :
    ofWickCluster? (bars.map (Bar.rescale k)) bias (c.rescale k) =
      (ofWickCluster? bars bias c).map (rescale k) := by
  simp only [ofWickCluster?, timeAt_rescale, WickCluster.rescale_barIndices]
  cases c.barIndices.head? with
  | none => rfl
  | some first => cases c.barIndices.getLast? <;> rfl

include hk

theorem ofEqualSwings?_rescale (barCount : Nat) (bias : Bias) (kind : SwingKind)
    (swings : List (Swing Rat)) :
    ofEqualSwings? barCount bias kind (swings.map (Swing.rescale k)) =
      (ofEqualSwings? barCount bias kind swings).map (rescale k) := by
  have hprices : (swings.map (Swing.rescale k)).map (·.price) =
      (swings.map (·.price)).map (k * ·) := by
    rw [List.map_map, List.map_map]
    rfl
  unfold ofEqualSwings?
  rw [choose?_map (fun x kept => decide (x.index < kept.index)) (Swing.rescale k) fun _ _ => rfl,
    choose?_map (fun x kept => decide (kept.index ≤ x.index)) (Swing.rescale k) fun _ _ => rfl,
    hprices, outermost_rescale_of_pos hk, List.length_map]
  cases choose? (fun x kept => decide (x.index < kept.index)) swings with
  | none => rfl
  | some first =>
    cases choose? (fun x kept => decide (kept.index ≤ x.index)) swings with
    | none => rfl
    | some last =>
      simp only [Option.map_some]
      split <;> rfl

theorem equalLevels_rescale (bars : List (Bar Rat)) (swings : List (Swing Rat)) (bias : Bias)
    (settings : LiquiditySettings Rat) :
    equalLevels (bars.map (Bar.rescale k)) (swings.map (Swing.rescale k)) bias settings =
      (equalLevels bars swings bias settings).map (rescale k) := by
  unfold equalLevels
  rw [List.map_flatMap]
  refine congrArg (List.flatMap · _) (funext fun kind => ?_)
  rw [List.length_map, List.filter_map,
    clusters_rescale hk (·.price) (Swing.rescale k) fun _ => rfl, List.filterMap_map,
    List.map_filterMap]
  simp only [Function.comp_def, Swing.rescale_kind, turned_of_pos hk, ofEqualSwings?_rescale hk]

theorem trendLiquidity?_rescale (structural : Structure Rat) :
    trendLiquidity? (structural.rescale k) = (trendLiquidity? structural).map (rescale k) := by
  simp only [trendLiquidity?, Structure.rescale_bias, turned_of_pos hk]
  cases structural.bias.direction? with
  | none => rfl
  | some d =>
    simp only [Option.bind_eq_bind, Option.bind_some, Structure.lastSwing?_rescale hk]
    cases structural.lastSwing? (against d) <;> rfl

theorem ofRange?_rescale (bars : List (Bar Rat)) (range : TradingRange Rat) (bias : Bias)
    (settings : LiquiditySettings Rat) (side : Direction) :
    ofRange? (bars.map (Bar.rescale k)) (range.rescale k) bias settings side =
      (ofRange? bars range bias settings side).map (rescale k) := by
  simp only [ofRange?, TradingRange.extreme_rescale_of_pos hk, TradingRange.window_rescale,
    TradingRange.rescale_startIndex, List.zipIdx_map, List.filter_map, Function.comp_def,
    Prod.map_fst, Bar.extreme_rescale_of_pos hk, near_rescale hk, List.head?_map,
    List.getLast?_map, List.length_map]
  generalize List.filter _ _ = touching
  cases touching.head? with
  | none => rfl
  | some first => cases touching.getLast? <;> rfl

theorem rangeExtremes_rescale (bars : List (Bar Rat)) (range : TradingRange Rat) (bias : Bias)
    (settings : LiquiditySettings Rat) :
    rangeExtremes (bars.map (Bar.rescale k)) (range.rescale k) bias settings =
      (rangeExtremes bars range bias settings).map (rescale k) := by
  rw [rangeExtremes, rangeExtremes, List.map_filterMap]
  simp only [ofRange?_rescale hk]

theorem wickTips_rescale (bars : List (Bar Rat)) (side : Direction)
    (settings : LiquiditySettings Rat) :
    wickTips (bars.map (Bar.rescale k)) side settings =
      (wickTips bars side settings).map (Prod.map id (k * ·)) := by
  simp only [wickTips, List.zipIdx_map, List.filterMap_map, List.map_filterMap, Function.comp_def,
    Prod.map_fst, Prod.map_snd, id, Bar.range_rescale_of_pos hk, Bar.wick_rescale hk,
    Bar.extreme_rescale_of_pos hk, Scalar.zero_eq, mul_pos_iff_of_pos_left hk,
    mul_div_mul_left _ _ hk.ne', apply_ite (Option.map _), Option.map_none]
  rfl

theorem wickClusters_rescale (bars : List (Bar Rat)) (settings : LiquiditySettings Rat) :
    wickClusters (bars.map (Bar.rescale k)) settings =
      (wickClusters bars settings).map (WickCluster.rescale k) := by
  unfold wickClusters
  rw [List.map_flatMap]
  refine congrArg (List.flatMap · _) (funext fun side => ?_)
  rw [wickTips_rescale hk, clusters_rescale hk (·.2) (Prod.map id (k * ·)) fun _ => rfl,
    List.filter_map, List.map_map, List.map_map]
  simp only [Function.comp_def, List.length_map]
  refine List.map_congr_left fun group _ => ?_
  have hprices : (group.map (Prod.map id (k * ·))).map (·.2) = (group.map (·.2)).map (k * ·) := by
    rw [List.map_map, List.map_map]
    rfl
  have hindices : (group.map (Prod.map id (k * ·))).map (·.1) = group.map (·.1) := by
    rw [List.map_map]
    rfl
  rw [hprices, hindices, outermost_rescale_of_pos hk]
  rfl

theorem ofSession?_rescale (bars : List (Bar Rat)) (bias : Bias) (session : Session)
    (side : Direction) :
    ofSession? (bars.map (Bar.rescale k)) bias session side =
      (ofSession? bars bias session side).map (rescale k) := by
  have hchoice (inside : List (Bar Rat × Nat)) :=
    choose?_map (fun x kept => side.beyond (x.1.extreme side) (kept.1.extreme side))
      (Prod.map (Bar.rescale k) id)
      (fun x kept => by
        rw [Prod.map_fst, Prod.map_fst, Bar.extreme_rescale_of_pos hk,
          Bar.extreme_rescale_of_pos hk, Direction.beyond_rescale_of_pos hk]) inside
  simp only [ofSession?, List.zipIdx_map, List.filter_map, Function.comp_def, Prod.map_fst,
    Bar.time_rescale, hchoice, Option.map_map]
  refine congrArg (Option.map · _) (funext fun (bar, index) => ?_)
  simp only [Prod.map_apply, Bar.extreme_rescale_of_pos hk, id]
  rfl

theorem sessionExtremes_rescale (bars : List (Bar Rat)) (sessions : List Session) (bias : Bias) :
    sessionExtremes (bars.map (Bar.rescale k)) sessions bias =
      (sessionExtremes bars sessions bias).map (rescale k) := by
  rw [sessionExtremes, sessionExtremes, List.map_flatMap]
  simp only [List.map_filterMap, ofSession?_rescale hk]

theorem notAfter_rescale (a b : Pool Rat) :
    notAfter (a.rescale k) (b.rescale k) = notAfter a b := by
  simp only [notAfter, rescale_price, Scalar.order_rescale hk, rescale_kind]

end Pool

end PriceAction
