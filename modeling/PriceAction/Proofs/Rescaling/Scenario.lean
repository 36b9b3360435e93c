import PriceAction.Proofs.Rescaling.Report
import PriceAction.Scenario.Gates

/-!
# The decision on rescaled prices

Every gate compares prices with prices, so a positive factor opens the same gates: it multiplies the
key levels of a decision and leaves all else but the prices that its reasons tell. The reasons are
therefore compared by their number alone (`Scenario.classify_rescale`).
-/

namespace PriceAction

/-- The level with its price multiplied by a factor. -/
def KeyLevel.rescale (k : Rat) (l : KeyLevel Rat) : KeyLevel Rat where
  name := l.name
  price := k * l.price

/-- The view of rescaled prices. -/
@[simps] def ScenarioView.rescale (k : Rat) (view : ScenarioView Rat) : ScenarioView Rat where
  bars := view.bars.map (Bar.rescale k)
  structural := view.structural.rescale k
  liquidity := view.liquidity.rescale k
  zones := view.zones.rescale k
  context := view.context.rescale k

/-- The walk with its prices multiplied by a factor. -/
def Walk.rescale (k : Rat) : Walk Rat → Walk Rat
  | .reached d confidence reasons levels =>
    .reached d confidence reasons (levels.map (KeyLevel.rescale k))
  | .blocked passed o reasons levels =>
    .blocked passed o reasons (levels.map (KeyLevel.rescale k))

@[simp] theorem Walk.rescale_reached (k : Rat) (d : Direction) (confidence : Rat)
    (reasons : List String) (levels : List (KeyLevel Rat)) :
    (reached d confidence reasons levels).rescale k =
      reached d confidence reasons (levels.map (KeyLevel.rescale k)) := rfl

@[simp] theorem Walk.rescale_blocked (k : Rat) (passed : Nat) (o : Obstacle)
    (reasons : List String) (levels : List (KeyLevel Rat)) :
    (blocked passed o reasons levels).rescale k =
      blocked passed o reasons (levels.map (KeyLevel.rescale k)) := rfl

/-- The decision with its prices multiplied by a factor. -/
def Decision.rescale (k : Rat) (d : Decision Rat) : Decision Rat :=
  { d with keyLevels := d.keyLevels.map (KeyLevel.rescale k) }

/-! ## Untold reasons -/

/-- As many reasons, without their texts. -/
def untold (reasons : List String) : List String :=
  reasons.map fun _ => ""

@[simp] theorem untold_nil : untold [] = [] := rfl

@[simp] theorem untold_cons (reason : String) (reasons : List String) :
    untold (reason :: reasons) = "" :: untold reasons := rfl

@[simp] theorem untold_untold (reasons : List String) : untold (untold reasons) = untold reasons :=
  List.map_map

@[simp] theorem untold_append (reasons later : List String) :
    untold (reasons ++ later) = untold reasons ++ untold later :=
  List.map_append

@[simp] theorem untold_toList_map {β : Type} (f : β → String) (o : Option β) :
    untold (o.map f).toList = (o.map fun _ => "").toList := by
  cases o <;> rfl

/-- The walk with its reasons untold. -/
def Walk.withoutTexts {α : Type} : Walk α → Walk α
  | .reached d confidence reasons levels => .reached d confidence (untold reasons) levels
  | .blocked passed o reasons levels => .blocked passed o (untold reasons) levels

@[simp] theorem Walk.withoutTexts_reached {α : Type} (d : Direction) (confidence : α)
    (reasons : List String) (levels : List (KeyLevel α)) :
    (reached d confidence reasons levels).withoutTexts =
      reached d confidence (untold reasons) levels := rfl

@[simp] theorem Walk.withoutTexts_blocked {α : Type} (passed : Nat) (o : Obstacle)
    (reasons : List String) (levels : List (KeyLevel α)) :
    (blocked passed o reasons levels).withoutTexts = blocked passed o (untold reasons) levels := rfl

/-- The decision with its reasons untold. -/
def Decision.withoutTexts {α : Type} (d : Decision α) : Decision α :=
  { d with reasons := untold d.reasons }

namespace Scenario

/-! ## Two walks -/

/-- The decision that two walks lead to. -/
def ofWalks : (reversal continuation : Walk Rat) → Decision Rat
  | .reached d confidence reasons levels, _ => decided .sweepReversal d confidence reasons levels
  | .blocked _ _ _ _, .reached d confidence reasons levels =>
    decided .trendContinuation d confidence reasons levels
  | .blocked passed o reasons levels, .blocked passed' o' reasons' levels' =>
    if passed' ≤ passed then undecided .sweepReversal passed o reasons levels
    else undecided .trendContinuation passed' o' reasons' levels'

theorem classify_of_getLast? {view : ScenarioView Rat} {last : Bar Rat}
    (h : view.bars.getLast? = some last) (settings : ScenarioSettings) :
    classify view settings =
      ofWalks (reversalWalk view settings last) (continuationWalk view last) := by
  simp only [classify, h]
  cases reversalWalk view settings last <;> cases continuationWalk view last <;> rfl

theorem ofWalks_rescale (k : Rat) (reversal continuation : Walk Rat) :
    ofWalks (reversal.rescale k) (continuation.rescale k) =
      (ofWalks reversal continuation).rescale k := by
  cases reversal with
  | reached => rfl
  | blocked =>
    cases continuation with
    | reached => rfl
    | blocked =>
      simp only [Walk.rescale_blocked, ofWalks]
      split <;> rfl

theorem withoutTexts_ofWalks (reversal continuation : Walk Rat) :
    (ofWalks reversal.withoutTexts continuation.withoutTexts).withoutTexts =
      (ofWalks reversal continuation).withoutTexts := by
  cases reversal with
  | reached => simp [ofWalks, decided, Decision.withoutTexts]
  | blocked =>
    cases continuation with
    | reached => simp [ofWalks, decided, Decision.withoutTexts]
    | blocked =>
      simp only [Walk.withoutTexts_blocked, ofWalks]
      split <;> simp [undecided, Decision.unclear, Decision.withoutTexts]

end Scenario

variable {k : Rat} (hk : 0 < k)
include hk

theorem Scalar.between_rescale (price low high : Rat) :
    between (k * price) (k * low) (k * high) = between price low high := by
  simp only [between, mul_le_mul_iff_of_pos_left hk]

namespace Scenario

/-! ## Sweep reversal -/

theorem excursion?_rescale (view : ScenarioView Rat) (settings : ScenarioSettings)
    (range : DailyRange Rat) :
    excursion? (view.rescale k) settings (range.rescale k) =
      (excursion? view settings range).map fun (i, d, extreme) => (i, d, k * extreme) := by
  simp only [excursion?, ScenarioView.rescale_bars, List.length_map, List.zipIdx_map,
    ← List.map_drop, ← List.map_reverse, List.findSome?_map, List.map_findSome?,
    Function.comp_def, Prod.map_fst, Bar.high_rescale hk, Bar.low_rescale hk, DailyRange.rescale,
    mul_lt_mul_iff_of_pos_left hk, apply_ite (Option.map _), Option.map_some, Option.map_none]
  rfl

theorem confirmation?_rescale (view : ScenarioView Rat) (d : Direction) (first : Nat) :
    confirmation? (view.rescale k) d first =
      (confirmation? view d first).map (Break.rescale k) := by
  simp only [confirmation?, ScenarioView.rescale_structural, Structure.rescale_breaks,
    ← List.map_reverse, List.find?_map, Function.comp_def, Break.rescale_direction,
    Break.rescale_barIndex, turned_of_pos hk]
  rfl

omit hk in
theorem confirmReversal_rescale (view : ScenarioView Rat) (d : Direction)
    (character : Option (Break Rat)) {reasons reasons' : List String}
    (h : untold reasons' = untold reasons) (levels : List (KeyLevel Rat)) :
    (confirmReversal (view.rescale k) d (character.map (Break.rescale k)) reasons'
        (levels.map (KeyLevel.rescale k))).withoutTexts =
      ((confirmReversal view d character reasons levels).rescale k).withoutTexts := by
  simp only [confirmReversal, ScenarioView.rescale_liquidity, Liquidity.rescale_phase,
    Option.isNone_map, Option.isSome_map, apply_ite (Walk.rescale k), apply_ite Walk.withoutTexts,
    Walk.rescale_reached, Walk.rescale_blocked, Walk.withoutTexts_reached,
    Walk.withoutTexts_blocked, untold_append, untold_toList_map, untold_cons, untold_nil, h,
    List.map_append, ← Option.toList_map, Option.map_map]
  rfl

theorem reversalWalk_rescale (view : ScenarioView Rat) (settings : ScenarioSettings)
    (last : Bar Rat) :
    (reversalWalk (view.rescale k) settings (last.rescale k)).withoutTexts =
      ((reversalWalk view settings last).rescale k).withoutTexts := by
  rw [reversalWalk, reversalWalk, ScenarioView.rescale_context, MarketContext.rescale_dailyRange]
  cases view.context.dailyRange with
  | none => rfl
  | some range =>
    simp only [Option.map_some, excursion?_rescale hk]
    cases excursion? view settings range with
    | none => rfl
    | some swept =>
      obtain ⟨first, d, extreme⟩ := swept
      have hinside :
          (range.rescale k).contains (last.rescale k).close = range.contains last.close :=
        Scalar.between_rescale hk ..
      simp only [Option.map_some, hinside, confirmation?_rescale hk]
      split
      · refine confirmReversal_rescale view d (confirmation? view d first) ?_
          [⟨"htf_high", range.high⟩, ⟨"htf_low", range.low⟩, ⟨"swept_extreme", extreme⟩]
        rfl
      · rfl

/-! ## Trend continuation -/

theorem reference?_rescale (structural : Structure Rat) (d : Direction) :
    reference? (structural.rescale k) d = (reference? structural d).map (k * ·) := by
  rw [reference?, Structure.lastSwing?_rescale hk, Structure.rescale_activeRange, reference?,
    Option.map_or, Option.map_map, Option.map_map, Option.map_map, Option.map_map]
  simp only [Function.comp_def, TradingRange.extreme_rescale_of_pos hk, Swing.rescale_price]

theorem workingZone?_rescale (view : ScenarioView Rat) (d : Direction) :
    workingZone? (view.rescale k) d =
      (workingZone? view d).map fun (name, low, high) => (name, k * low, k * high) := by
  have hchoice := choose?_map (fun x kept => decide (kept.originIndex ≤ x.originIndex))
    (Zone.rescale k) fun _ _ => rfl
  simp only [workingZone?, ScenarioView.rescale_zones, ZoneReport.rescale_active, List.filter_map,
    Function.comp_def, Zone.rescale_direction, Zone.rescale_role, Zone.rescale_status, hchoice,
    ScenarioView.rescale_structural, Structure.rescale_retracements, ← List.map_reverse,
    List.find?_map, Option.map_or, Option.map_map, Retracement.rescale_direction,
    Retracement.rescale_role, turned_of_pos hk, Function.comp_def, Retracement.low_rescale hk,
    Retracement.high_rescale hk, Zone.rescale_kind, Zone.rescale_low, Zone.rescale_high]

theorem confirmContinuation_rescale (view : ScenarioView Rat) (d : Direction) (last : Bar Rat)
    (low high : Rat) {reasons reasons' : List String} (h : untold reasons' = untold reasons)
    (levels : List (KeyLevel Rat)) :
    (confirmContinuation (view.rescale k) d (last.rescale k) (k * low) (k * high) reasons'
        (levels.map (KeyLevel.rescale k))).withoutTexts =
      ((confirmContinuation view d last low high reasons levels).rescale k).withoutTexts := by
  simp only [confirmContinuation, ScenarioView.rescale_structural, Structure.rescale_breaks,
    List.getLast?_map, Bar.close_rescale, Scalar.between_rescale hk]
  cases view.structural.breaks.getLast? with
  | none =>
    simp only [Option.map_none, Walk.rescale_reached, Walk.withoutTexts_reached, untold_append, h]
    rfl
  | some e =>
    simp only [Option.map_some, Break.rescale_direction, turned_of_pos hk, Walk.rescale_reached,
      Walk.withoutTexts_reached, untold_append, h]
    rfl

theorem continuationWalk_rescale (view : ScenarioView Rat) (last : Bar Rat) :
    (continuationWalk (view.rescale k) (last.rescale k)).withoutTexts =
      ((continuationWalk view last).rescale k).withoutTexts := by
  rw [continuationWalk, continuationWalk, ScenarioView.rescale_structural, Structure.rescale_bias,
    turned_of_pos hk, Structure.rescale_trend, turned_of_pos hk]
  cases view.structural.bias.direction? with
  | none => rfl
  | some d =>
    have hopposed : (view.rescale k).context.higherDirection? = view.context.higherDirection? := rfl
    simp only [hopposed, reference?_rescale hk]
    split
    · rfl
    · have hheld : ((reference? view.structural d).map (k * ·)).filter
          (fun level => d.beyond (last.rescale k).close level) =
            ((reference? view.structural d).filter fun level =>
              d.beyond last.close level).map (k * ·) := by
        rw [Option.filter_map]
        simp only [Function.comp_def, Bar.close_rescale, Direction.beyond_rescale_of_pos hk]
      rw [hheld]
      cases (reference? view.structural d).filter _ with
      | none => rfl
      | some level =>
        simp only [Option.map_some, workingZone?_rescale hk]
        cases workingZone? view d with
        | none => rfl
        | some zone =>
          obtain ⟨name, low, high⟩ := zone
          refine confirmContinuation_rescale hk view d last low high ?_
            [⟨"reference", level⟩, ⟨"zone_low", low⟩, ⟨"zone_high", high⟩]
          rfl

/-! ## The decision -/

/-- A positive factor multiplies the key levels of a decision and leaves all else but the texts of
its reasons. -/
theorem classify_rescale (view : ScenarioView Rat) (settings : ScenarioSettings) :
    (classify (view.rescale k) settings).withoutTexts =
      ((classify view settings).rescale k).withoutTexts := by
  cases hlast : view.bars.getLast? with
  | none =>
    rw [classify, ScenarioView.rescale_bars, List.getLast?_map, hlast, classify, hlast]
    rfl
  | some last =>
    have hlast' : (view.rescale k).bars.getLast? = some (last.rescale k) := by
      rw [ScenarioView.rescale_bars, List.getLast?_map, hlast, Option.map_some]
    rw [classify_of_getLast? hlast', classify_of_getLast? hlast, ← withoutTexts_ofWalks,
      reversalWalk_rescale hk, continuationWalk_rescale hk, withoutTexts_ofWalks, ofWalks_rescale]

end Scenario

end PriceAction
