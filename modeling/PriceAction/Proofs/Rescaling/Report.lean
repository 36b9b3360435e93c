import PriceAction.Proofs.Rescaling.Zone
import PriceAction.Zone.Report

/-!
# The zone report of rescaled prices

Overlaps are shares of spans and gaps are compared with the volatility, so the same zones are linked
and form the same groups (`Zone.groups_rescale`), and the same of them stay active. A positive
factor multiplies the prices of the zones and leaves all else of their report
(`ZoneReport.analyze_rescale`).
-/

namespace PriceAction

/-! ## Points of interest -/

namespace Zone

/-- The placed zone with its prices multiplied by a factor. -/
def rescalePlaced (k : Rat) (x : Placed Rat) : Placed Rat := (x.1.rescale k, x.2)

/-- The slot with the prices of its zones multiplied by a factor. -/
def rescaleSlot (k : Rat) (slot : Nat × List (Placed Rat)) : Nat × List (Placed Rat) :=
  (slot.1, slot.2.map (rescalePlaced k))

theorem addTo_rescale (k : Rat) (root : Nat) (x : Placed Rat)
    (slots : List (Nat × List (Placed Rat))) :
    addTo root (rescalePlaced k x) (slots.map (rescaleSlot k)) =
      (addTo root x slots).map (rescaleSlot k) := by
  induction slots with
  | nil => rfl
  | cons slot rest ih =>
    rw [List.map_cons, addTo, addTo, ih, apply_ite (List.map _)]
    simp only [rescaleSlot, List.map_cons, List.map_append, List.map_nil]
    rfl

end Zone

/-- The report with its prices multiplied by a factor. -/
@[simps] def ZoneReport.rescale (k : Rat) (r : ZoneReport Rat) : ZoneReport Rat :=
  { r with
    all := r.all.map (Zone.rescale k)
    active := r.active.map (Zone.rescale k) }

variable {k : Rat} (hk : 0 < k)
include hk

namespace Zone

theorem belongsWith_rescale (settings : ConfluenceSettings Rat) (volatility : Rat)
    (a b : Zone Rat) :
    belongsWith settings (k * volatility) (a.rescale k) (b.rescale k) =
      belongsWith settings volatility a b := by
  simp only [belongsWith, rescale_low, rescale_high, span_rescale, Scalar.max_rescale hk.le,
    Scalar.min_rescale hk.le, ← mul_sub, ← mul_neg, Scalar.zero_eq, mul_pos_iff_of_pos_left hk,
    mul_left_comm _ k, mul_le_mul_iff_of_pos_left hk, Scalar.rescale_nonpos_iff hk,
    mul_div_mul_left _ _ hk.ne']

theorem linked_rescale (settings : ConfluenceSettings Rat) (volatility : Rat) (z : Zone Rat)
    (rest : List (Placed Rat)) :
    linked settings (k * volatility) (z.rescale k) (rest.map (rescalePlaced k)) =
      (linked settings volatility z rest).map (rescalePlaced k) := by
  simp only [linked, List.takeWhile_map, List.filter_map, Function.comp_def, rescalePlaced,
    rescale_low, rescale_high, ← mul_sub, mul_left_comm _ k, mul_lt_mul_iff_of_pos_left hk,
    belongsWith_rescale hk]

theorem joinLinked_rescale (settings : ConfluenceSettings Rat) (volatility : Rat)
    (placed : List (Placed Rat)) (s : DisjointSet) :
    joinLinked settings (k * volatility) (placed.map (rescalePlaced k)) s =
      joinLinked settings volatility placed s := by
  induction placed generalizing s with
  | nil => rfl
  | cons x rest ih =>
    have hlinked : linked settings (k * volatility) (rescalePlaced k x).1
        (rest.map (rescalePlaced k)) =
          (linked settings volatility x.1 rest).map (rescalePlaced k) :=
      linked_rescale hk settings volatility x.1 rest
    rw [List.map_cons, joinLinked, ih, joinLinked, hlinked, List.foldl_map]
    rfl

theorem groups_rescale (settings : ConfluenceSettings Rat) (volatility : Rat)
    (zones : List (Zone Rat)) :
    groups settings (k * volatility) (zones.map (rescale k)) =
      (groups settings volatility zones).map (List.map (rescalePlaced k)) := by
  have hplaced : (zones.map (rescale k)).zipIdx = zones.zipIdx.map (rescalePlaced k) :=
    List.zipIdx_map
  have hcollect (state : List (Nat × List (Placed Rat)) × DisjointSet) (x : Placed Rat) :
      collect (state.1.map (rescaleSlot k), state.2) (rescalePlaced k x) =
        ((collect state x).1.map (rescaleSlot k), (collect state x).2) := by
    simp only [collect, rescalePlaced]
    exact congrArg (·, _) (addTo_rescale k _ x state.1)
  -- the disjoint set sees positions only, so both runs of the fold hold the same one
  have hfold (s : DisjointSet) := @List.foldl_hom _ _ _
    (fun state : List (Nat × List (Placed Rat)) × DisjointSet =>
      (state.1.map (rescaleSlot k), state.2)) collect
    (fun state x => collect state (rescalePlaced k x)) zones.zipIdx ([], s) hcollect
  rw [groups, hplaced, joinLinked_rescale hk, List.length_map, List.foldl_map, groups]
  refine (congrArg (fun state => state.1.map (·.2)) (hfold _)).trans ?_
  rw [List.map_map, List.map_map]
  rfl

theorem members_rescale (d : Direction) (prior : List (Zone Rat)) :
    members d (prior.map (rescale k)) = (members d prior).map (rescale k) := by
  have hband (a b : Zone Rat) : bandNotAfter (a.rescale k) (b.rescale k) = bandNotAfter a b := by
    simp only [bandNotAfter, rescale_low, rescale_high, Scalar.order_rescale hk]
  rw [members, List.filter_map, members]
  refine (List.map_mergeSort fun a _ b _ => ?_).symm
  exact (hband a b).symm

theorem ofGroup?_rescale (view : ZoneView Rat) (d : Direction) (group : List (Zone Rat)) :
    ofGroup? (view.rescale k) d (group.map (rescale k)) =
      (ofGroup? view d group).map (rescale k) := by
  have hprices (edge : Zone Rat → Rat) (hedge : ∀ z, edge (z.rescale k) = k * edge z)
      (side : Direction) : Pool.outermost side ((group.map (rescale k)).map edge) =
        k * Pool.outermost side (group.map edge) := by
    rw [← Pool.outermost_rescale_of_pos hk, List.map_map, List.map_map]
    simp only [Function.comp_def, hedge]
  have hlow : Scalar.least ((group.map (rescale k)).map (·.low)) =
      k * Scalar.least (group.map (·.low)) :=
    hprices (·.low) (fun _ => rfl) .bearish
  have hhigh : Scalar.greatest ((group.map (rescale k)).map (·.high)) =
      k * Scalar.greatest (group.map (·.high)) :=
    hprices (·.high) (fun _ => rfl) .bullish
  rw [ofGroup?, choose?_map asYoungAs (rescale k) fun _ _ => rfl, ofGroup?, Option.map_map,
    Option.map_map]
  refine congrArg (Option.map · _) (funext fun youngest => ?_)
  simp only [Function.comp_apply, hlow, hhigh, ZoneView.rescale_structural, Structure.rescale_bias,
    turned_of_pos hk, List.any_map]
  simp only [List.map_map, Function.comp_def, rescale, Provenance.rescale]
  rfl

theorem confluences_rescale (view : ZoneView Rat) (volatility : Rat) (prior : List (Zone Rat)) :
    confluences (view.rescale k) (k * volatility) (prior.map (rescale k)) =
      (confluences view volatility prior).map (rescale k) := by
  simp only [confluences, ZoneView.rescale_settings, members_rescale hk, groups_rescale hk,
    List.map_flatMap, List.filter_map, List.filterMap_map, List.map_filterMap, Function.comp_def,
    List.length_map, List.map_map, ← ofGroup?_rescale hk]
  rfl

/-! ## The report -/

theorem detect_rescale (view : ZoneView Rat) (kind : ZoneKind) (prior : List (Zone Rat)) :
    detect (view.rescale k) kind (prior.map (rescale k)) =
      (detect view kind prior).map (List.map (rescale k)) := by
  rw [detect, ZoneView.rescale_structural, Structure.volatility_rescale_of_pos hk, detect]
  cases view.structural.volatility with
  | none => rfl
  | some v =>
    refine congrArg Except.ok ?_
    cases kind with
    | orderBlock => exact orderBlocks_rescale hk view v
    | imbalance => exact imbalances_rescale hk view v
    | breaker => exact breakers_rescale hk view v prior
    | confluence => exact confluences_rescale hk view v prior

theorem search_rescale (view : ZoneView Rat) (found : List (Zone Rat) × List Shortfall)
    (kind : ZoneKind) :
    search (view.rescale k) (found.1.map (rescale k), found.2) kind =
      ((search view found kind).1.map (rescale k), (search view found kind).2) := by
  rw [search, detect_rescale hk, search]
  cases detect view kind found.1 with
  | error shortfall => rfl
  | ok zones => exact congrArg (·, _) (List.map_append).symm

theorem distance_rescale (z : Zone Rat) (price : Rat) :
    (z.rescale k).distance (k * price) = k * z.distance price := by
  have hzero : (0.0 : Rat) = k * 0.0 := by norm_num
  simp only [distance, rescale_low, rescale_high, mul_lt_mul_iff_of_pos_left hk, ← mul_sub]
  rw [apply_ite (k * ·), apply_ite (k * ·), ← hzero]

theorem isActive_rescale (view : ZoneView Rat) (z : Zone Rat) :
    isActive (view.rescale k) (z.rescale k) = isActive view z := by
  simp only [isActive, rescale_status, rescale_originIndex, rescale_kind, ZoneView.rescale_bars,
    ZoneView.rescale_settings, ZoneView.rescale_structural, List.length_map, List.getLast?_map,
    Structure.volatility_rescale_of_pos hk]
  cases view.bars.getLast? with
  | none => rfl
  | some last =>
    cases view.structural.volatility with
    | none => rfl
    | some v =>
      simp only [Option.map_some, Bar.close_rescale, distance_rescale hk, mul_left_comm _ k,
        mul_le_mul_iff_of_pos_left hk]

end Zone

/-- A positive factor multiplies the prices of the zones and leaves all else. -/
theorem ZoneReport.analyze_rescale (view : ZoneView Rat) :
    analyze (view.rescale k) = (analyze view).rescale k := by
  have hsearch : Zone.searchOrder.foldl (Zone.search (view.rescale k)) ([], []) =
      ((Zone.searchOrder.foldl (Zone.search view) ([], [])).1.map (Zone.rescale k),
        (Zone.searchOrder.foldl (Zone.search view) ([], [])).2) :=
    @List.foldl_hom _ _ _
      (fun found : List (Zone Rat) × List Shortfall => (found.1.map (Zone.rescale k), found.2))
      (Zone.search view) (Zone.search (view.rescale k)) Zone.searchOrder ([], [])
      (Zone.search_rescale hk view)
  rw [analyze, hsearch, analyze]
  generalize Zone.searchOrder.foldl (Zone.search view) ([], []) = found
  simp only [List.filter_map, Function.comp_def, Zone.isActive_rescale hk, List.map_map,
    Zone.rescale_kind, Zone.rescale_role]
  rfl

omit hk in
theorem ZoneReport.countable_rescale (lookback : Nat) (r : ZoneReport Rat) :
    (r.rescale k).Countable lookback ↔ r.Countable lookback := by
  simp only [Countable, rescale, List.forall_mem_map, Zone.rescale_status,
    Zone.rescale_originIndex]

end PriceAction
