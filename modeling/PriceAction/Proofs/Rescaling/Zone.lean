import PriceAction.Proofs.Rescaling.Liquidity
import PriceAction.Zone.Breaker
import PriceAction.Zone.Imbalance
import PriceAction.Zone.OrderBlock

/-!
# The zones of rescaled prices

A positive factor multiplies the edges of a zone and leaves all else: ids are made from times, and
strengths and fills are ratios. So the order blocks, imbalances and breakers of rescaled prices are
those of the prices, rescaled (`Zone.orderBlocks_rescale`, `Zone.imbalances_rescale`,
`Zone.breakers_rescale`).
-/

namespace PriceAction

/-- The source of a zone with its price multiplied by a factor. -/
def Provenance.rescale (k : Rat) : Provenance Rat → Provenance Rat
  | .event kind direction eventIndex legIndex time =>
    .event kind direction eventIndex legIndex time
  | .gap first last => .gap first last
  | .sweep level side time => .sweep (k * level) side time
  | .zone id kind => .zone id kind

/-- The zone with its prices multiplied by a factor. -/
@[simps] def Zone.rescale (k : Rat) (z : Zone Rat) : Zone Rat :=
  { z with
    low := k * z.low
    high := k * z.high
    provenance := z.provenance.map (Provenance.rescale k) }

/-- The view of rescaled prices. -/
@[simps] def ZoneView.rescale (k : Rat) (view : ZoneView Rat) : ZoneView Rat where
  bars := view.bars.map (Bar.rescale k)
  structural := view.structural.rescale k
  liquidity := view.liquidity.rescale k
  timeframe := view.timeframe
  settings := view.settings

namespace Zone

theorem addNew_rescale (k : Rat) (zones : List (Zone Rat)) (z : Zone Rat) :
    addNew (zones.map (rescale k)) (z.rescale k) = (addNew zones z).map (rescale k) := by
  rw [addNew, List.any_map, addNew, apply_ite (List.map _), List.map_append]
  rfl

theorem farEdge_rescale (k : Rat) (block : Zone Rat) :
    (block.rescale k).farEdge = k * block.farEdge := by
  rw [farEdge, farEdge, rescale_direction]
  cases block.direction <;> rfl

theorem span_rescale (k : Rat) (z : Zone Rat) : (z.rescale k).span = k * z.span :=
  (mul_sub ..).symm

end Zone

variable {k : Rat} (hk : 0 < k)
include hk

theorem Structure.volatility_rescale_of_pos (s : Structure Rat) :
    (s.rescale k).volatility = s.volatility.map (k * ·) := by
  rw [volatility, rescale_details, StructureMeta.rescale_volatility, abs_of_pos hk, volatility]

theorem Break.provenance_rescale (e : Break Rat) (index : Nat) :
    (e.rescale k).provenance index = (e.provenance index).rescale k := by
  rw [provenance, rescale_direction, turned_of_pos hk]
  rfl

namespace Zone

theorem impulse_rescale (displacement volatility : Rat) :
    impulse (k * displacement) (k * volatility) = impulse displacement volatility := by
  rw [impulse, mul_left_comm, mul_div_mul_left _ _ hk.ne', impulse]

/-! ## Lifecycle -/

theorem revisit_rescale (low high : Rat) (d : Direction) (status : ZoneStatus) (b : Bar Rat) :
    revisit (k * low) (k * high) d status (b.rescale k) = revisit low high d status b := by
  have hcloses :
      closesThrough (k * low) (k * high) d (b.rescale k) = closesThrough low high d b := by
    cases d
    all_goals exact decide_eq_decide.2 (mul_lt_mul_iff_of_pos_left hk)
  have hreaches : reaches (k * low) (k * high) d (b.rescale k) = reaches low high d b := by
    cases d
    · rw [reaches, Bar.low_rescale hk]
      exact decide_eq_decide.2 (mul_le_mul_iff_of_pos_left hk)
    · rw [reaches, Bar.high_rescale hk]
      exact decide_eq_decide.2 (mul_le_mul_iff_of_pos_left hk)
  rw [revisit, hcloses, hreaches, revisit]

theorem lifecycle_rescale (bars : List (Bar Rat)) (origin : Nat) (low high : Rat) (d : Direction) :
    lifecycle (bars.map (Bar.rescale k)) origin (k * low) (k * high) d =
      lifecycle bars origin low high d := by
  rw [lifecycle, ← List.map_drop, List.foldl_map]
  simp only [revisit_rescale hk]
  rfl

/-! ## Order blocks -/

theorem opposes_rescale (d : Direction) (b : Bar Rat) : opposes d (b.rescale k) = opposes d b :=
  Direction.beyond_rescale_of_pos hk ..

theorem candle?_rescale (settings : OrderBlockSettings Rat) (bars : List (Bar Rat))
    (e : Break Rat) :
    candle? settings (bars.map (Bar.rescale k)) (e.rescale k) =
      (candle? settings bars e).map fun (candle, index) => (candle.rescale k, index) := by
  simp only [candle?, List.zipIdx_map, ← List.map_take, ← List.map_drop, ← List.map_reverse,
    List.find?_map, Function.comp_def, Prod.map_fst, Break.rescale_barIndex,
    Break.rescale_direction, turned_of_pos hk, opposes_rescale hk, Bar.bodyRatio_rescale hk]
  rfl

theorem ofCandle_rescale (view : ZoneView Rat) (volatility : Rat) (e : Break Rat)
    (eventIndex : Nat) (candle : Bar Rat) (index : Nat) :
    ofCandle (view.rescale k) (k * volatility) (e.rescale k) eventIndex (candle.rescale k) index =
      (ofCandle view volatility e eventIndex candle index).rescale k := by
  simp only [ofCandle, ZoneView.rescale_settings, ZoneView.rescale_timeframe, ZoneView.rescale_bars,
    ZoneView.rescale_structural, Structure.rescale_bias, Break.rescale_direction,
    Break.rescale_displacement, Break.rescale_barIndex, turned_of_pos hk, abs_of_pos hk,
    Bar.bodyRatio_rescale hk, Bar.bodyLow_rescale hk, Bar.bodyHigh_rescale hk, Bar.low_rescale hk,
    Bar.high_rescale hk, Bar.time_rescale, ← apply_ite (k * ·), impulse_rescale hk,
    lifecycle_rescale hk, Break.provenance_rescale hk]
  rfl

theorem ofBreak?_rescale (view : ZoneView Rat) (volatility : Rat) (e : Break Rat)
    (eventIndex : Nat) :
    ofBreak? (view.rescale k) (k * volatility) (e.rescale k) eventIndex =
      (ofBreak? view volatility e eventIndex).map (rescale k) := by
  rw [ofBreak?, ZoneView.rescale_settings, ZoneView.rescale_bars, candle?_rescale hk, ofBreak?,
    Option.map_map, Option.map_map]
  exact congrArg (Option.map · _) (funext fun (candle, index) =>
    ofCandle_rescale hk view volatility e eventIndex candle index)

theorem orderBlocks_rescale (view : ZoneView Rat) (volatility : Rat) :
    orderBlocks (view.rescale k) (k * volatility) =
      (orderBlocks view volatility).map (rescale k) := by
  have hfound : ((view.structural.rescale k).breaks.zipIdx.filterMap fun (e, i) =>
      ofBreak? (view.rescale k) (k * volatility) e i) =
        (view.structural.breaks.zipIdx.filterMap fun (e, i) =>
          ofBreak? view volatility e i).map (rescale k) := by
    rw [Structure.rescale_breaks, List.zipIdx_map, List.filterMap_map, List.map_filterMap]
    exact congrArg (List.filterMap · _) (funext fun (e, i) =>
      ofBreak?_rescale hk view volatility e i)
  rw [orderBlocks, ZoneView.rescale_structural, hfound, List.foldl_map, orderBlocks]
  exact @List.foldl_hom _ _ _ (List.map (rescale k)) addNew _ _ [] (addNew_rescale k)

/-! ## Imbalances -/

theorem gap?_rescale (first last : Bar Rat) :
    gap? (first.rescale k) (last.rescale k) =
      (gap? first last).map fun (low, high, d) => (k * low, k * high, d) := by
  simp only [gap?, Bar.high_rescale hk, Bar.low_rescale hk, mul_lt_mul_iff_of_pos_left hk,
    apply_ite (Option.map _), Option.map_some, Option.map_none]

theorem penetration_rescale (low high : Rat) (d : Direction) (b : Bar Rat) :
    penetration (k * low) (k * high) d (b.rescale k) = k * penetration low high d b := by
  cases d with
  | bullish =>
    rw [penetration, Bar.low_rescale hk]
    exact (mul_sub ..).symm
  | bearish =>
    rw [penetration, Bar.high_rescale hk]
    exact (mul_sub ..).symm

theorem fillOf_rescale (later : List (Bar Rat)) (low high : Rat) (d : Direction) :
    fillOf (later.map (Bar.rescale k)) (k * low) (k * high) d = fillOf later low high d := by
  have hdepths : (later.map (Bar.rescale k)).map (penetration (k * low) (k * high) d) =
      (later.map (penetration low high d)).map (k * ·) := by
    rw [List.map_map, List.map_map]
    exact List.map_congr_left fun b _ => penetration_rescale hk low high d b
  have hdeepest (depths : List Rat) :
      (depths.map (k * ·)).foldl Scalar.max 0 = k * depths.foldl Scalar.max 0 := by
    have hfold := List.foldl_map_hom (a := 0) (l := depths) (Scalar.max_rescale hk.le)
    rwa [mul_zero] at hfold
  simp only [fillOf, hdepths, hdeepest, ← mul_sub, Scalar.zero_eq, Scalar.rescale_nonpos_iff hk,
    mul_div_mul_left _ _ hk.ne']

theorem ofCandles?_rescale (view : ZoneView Rat) (volatility : Rat) (index : Nat)
    (first middle last : Bar Rat) (later : List (Bar Rat)) :
    ofCandles? (view.rescale k) (k * volatility) index (first.rescale k) (middle.rescale k)
        (last.rescale k) (later.map (Bar.rescale k)) =
      (ofCandles? view volatility index first middle last later).map (rescale k) := by
  rw [ofCandles?, gap?_rescale hk, ofCandles?]
  cases gap? first last with
  | none => rfl
  | some gap =>
    obtain ⟨low, high, d⟩ := gap
    have hleast (settings : ImbalanceSettings Rat) :
        Scalar.max (settings.gapVolatilities * (k * volatility))
            (settings.gapShare * (k * middle.close)) =
          k * Scalar.max (settings.gapVolatilities * volatility)
            (settings.gapShare * middle.close) := by
      rw [mul_left_comm, mul_left_comm settings.gapShare, Scalar.max_rescale hk.le]
    have hstrength :
        k * (high - low) / (2.0 * (k * volatility)) = (high - low) / (2.0 * volatility) := by
      rw [mul_left_comm, mul_div_mul_left _ _ hk.ne']
    simp only [Option.map_some, Option.bind_some, ZoneView.rescale_settings,
      ZoneView.rescale_structural, Structure.rescale_bias, turned_of_pos hk, Bar.close_rescale,
      hleast, ← mul_sub, mul_le_mul_iff_of_pos_left hk, hstrength, fillOf_rescale hk,
      List.length_map, Bar.time_rescale, apply_ite (Option.map _), Option.map_none]
    rfl

theorem imbalancesFrom_rescale (view : ZoneView Rat) (volatility : Rat) (index : Nat)
    (bars : List (Bar Rat)) :
    imbalancesFrom (view.rescale k) (k * volatility) index (bars.map (Bar.rescale k)) =
      (imbalancesFrom view volatility index bars).map (rescale k) := by
  induction bars generalizing index with
  | nil => rfl
  | cons first rest ih =>
    match rest with
    | [] => rfl
    | [_] => rfl
    | middle :: last :: later =>
      have hlater := ih (index + 1)
      rw [List.map_cons, List.map_cons] at hlater
      rw [List.map_cons, List.map_cons, List.map_cons, imbalancesFrom, hlater,
        ofCandles?_rescale hk, imbalancesFrom, List.map_append, Option.toList_map]

theorem imbalances_rescale (view : ZoneView Rat) (volatility : Rat) :
    imbalances (view.rescale k) (k * volatility) = (imbalances view volatility).map (rescale k) :=
  imbalancesFrom_rescale hk view volatility 0 view.bars

/-! ## Breakers -/

theorem edgeTolerance_rescale (settings : BreakerSettings Rat) (block : Zone Rat) :
    edgeTolerance settings (block.rescale k) = k * edgeTolerance settings block := by
  rw [edgeTolerance, span_rescale, farEdge_rescale, Scalar.abs_rescale, abs_of_pos hk, mul_assoc,
    mul_assoc, Scalar.max_rescale hk.le, edgeTolerance]

theorem isSweptBy_rescale (settings : BreakerSettings Rat) (block : Zone Rat) (s : Sweep Rat) :
    isSweptBy settings (block.rescale k) (s.rescale k) = isSweptBy settings block s := by
  have hdist : Scalar.abs (k * s.level - k * block.farEdge) =
      k * Scalar.abs (s.level - block.farEdge) := by
    rw [Scalar.abs_sub_rescale, abs_of_pos hk]
  simp only [isSweptBy, farEdge_rescale, edgeTolerance_rescale hk, Sweep.rescale_level, hdist,
    mul_le_mul_iff_of_pos_left hk, Sweep.rescale_side, Sweep.rescale_barIndex, rescale_direction,
    rescale_originIndex]

theorem isBrokenBy_rescale (settings : BreakerSettings Rat) (volatility : Rat) (block : Zone Rat)
    (s : Sweep Rat) (e : Break Rat) :
    isBrokenBy settings (k * volatility) (block.rescale k) (s.rescale k) (e.rescale k) =
      isBrokenBy settings volatility block s e := by
  simp only [isBrokenBy, Break.rescale_direction, Break.rescale_barIndex,
    Break.rescale_displacement, turned_of_pos hk, abs_of_pos hk, rescale_direction,
    Sweep.rescale_barIndex, mul_left_comm _ k, mul_le_mul_iff_of_pos_left hk]

theorem turn?_rescale (view : ZoneView Rat) (volatility : Rat) (block : Zone Rat) :
    turn? (view.rescale k) (k * volatility) (block.rescale k) =
      (turn? view volatility block).map fun (s, e, i) => (s.rescale k, e.rescale k, i) := by
  simp only [turn?, ZoneView.rescale_liquidity, Liquidity.rescale_sweeps, ZoneView.rescale_settings,
    ZoneView.rescale_structural, Structure.rescale_breaks, List.filter_map, List.zipIdx_map,
    List.find?_map, List.findSome?_map, List.map_findSome?, Function.comp_def, isSweptBy_rescale hk,
    Prod.map_fst, isBrokenBy_rescale hk, Option.map_map]
  rfl

theorem ofTurn_rescale (view : ZoneView Rat) (volatility : Rat) (block : Zone Rat)
    (s : Sweep Rat) (e : Break Rat) (eventIndex : Nat) :
    ofTurn (view.rescale k) (k * volatility) (block.rescale k) (s.rescale k) (e.rescale k)
        eventIndex = (ofTurn view volatility block s e eventIndex).rescale k := by
  simp only [ofTurn, rescale_direction, rescale_low, rescale_high, rescale_strength, rescale_id,
    Break.rescale_barIndex, Break.rescale_displacement, Break.rescale_time, Sweep.rescale_time,
    ZoneView.rescale_bars, ZoneView.rescale_structural, Structure.rescale_bias, turned_of_pos hk,
    abs_of_pos hk, impulse_rescale hk, lifecycle_rescale hk, Break.provenance_rescale hk]
  rfl

theorem breakers_rescale (view : ZoneView Rat) (volatility : Rat) (prior : List (Zone Rat)) :
    breakers (view.rescale k) (k * volatility) (prior.map (rescale k)) =
      (breakers view volatility prior).map (rescale k) := by
  simp only [breakers, List.filter_map, List.filterMap_map, List.map_filterMap, Function.comp_def,
    rescale_kind, turn?_rescale hk, Option.map_map, ofTurn_rescale hk]

end Zone

end PriceAction
