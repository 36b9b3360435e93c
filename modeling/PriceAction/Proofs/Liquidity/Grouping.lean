import Mathlib.Data.List.Flatten
import PriceAction.Proofs.Liquidity.Cluster
import PriceAction.Proofs.Liquidity.Pool

/-!
# Clusters group every item once

Clusters cut the sorted items into stretches around their lowest prices, and what they are depends
on the prices alone (`map_clusters`). So no item is lost, clusters do not chain, and their prices do
not depend on the order of the items. The pools of equal levels and the wick clusters are made of
different clusters each (`clusters_group`).
-/

namespace PriceAction

variable {ι : Type} {price : ι → Rat} {tolerance : Rat} {items : List ι}

/-! ## Sorting by price -/

theorem filter_sortByPrice (price : ι → Rat) (items : List ι) (p : Rat) :
    (sortByPrice price items).filter (fun x => price x = p) =
      items.filter fun x => price x = p := by
  have := transCmp_on (Scalar.order (α := Rat)) price
  rw [sortByPrice, filter_mergeSort isLE_trans isLE_total]
  apply List.mergeSort_of_pairwise
  rw [List.pairwise_filter]
  refine List.pairwise_of_forall fun x y hx hy => ?_
  rw [of_decide_eq_true hx, of_decide_eq_true hy]
  exact Scalar.isLE_order.2 le_rfl

theorem map_sortByPrice {items items' : List ι} (h : items.Perm items') (price : ι → Rat) :
    (sortByPrice price items).map price = (sortByPrice price items').map price := by
  have hsorted (items : List ι) : ((sortByPrice price items).map price).Pairwise (· ≤ ·) :=
    List.pairwise_map.2 (pairwise_sortByPrice price items)
  refine List.Perm.eq_of_pairwise (fun a b _ _ => le_antisymm) (hsorted items) (hsorted items') ?_
  have hperm := ((sortByPrice_perm price items).trans h).trans (sortByPrice_perm price items').symm
  exact hperm.map price

/-! ## Cutting -/

theorem map_cutClusters (price : ι → Rat) (tolerance : Rat) (items : List ι) :
    (cutClusters price tolerance items).map (·.map price) =
      cutClusters id tolerance (items.map price) := by
  fun_induction cutClusters price tolerance items with
  | case1 => rw [List.map_nil, List.map_nil, cutClusters]
  | case2 x rest ih =>
    rw [List.map_cons, List.map_cons, List.map_cons, ih, cutClusters, List.takeWhile_map,
      List.dropWhile_map]
    rfl

theorem map_clusters {items items' : List ι} (h : items.Perm items') (price : ι → Rat)
    (tolerance : Rat) :
    (clusters price tolerance items).map (·.map price) =
      (clusters price tolerance items').map (·.map price) := by
  rw [clusters, clusters, map_cutClusters, map_cutClusters, map_sortByPrice h]

/-- Whether groups hold every item once, in a stable order by price, each of them around its lowest
price, and the next begins beyond what is near that. -/
structure GroupsByPrice (price : ι → Rat) (tolerance : Rat) (items : List ι)
    (groups : List (List ι)) : Prop where
  perm : groups.flatten.Perm items
  sorted : groups.flatten.Pairwise fun x y => price x ≤ price y
  stable : ∀ p, groups.flatten.filter (fun x => price x = p) = items.filter fun x => price x = p
  anchored : ∀ g ∈ groups, ∃ a, g.head? = some a ∧
    ∀ x ∈ g, price a ≤ price x ∧ |price x - price a| ≤ tolerance * |price a|
  apart : groups.Pairwise fun g g' => ∀ a ∈ g.head?, ∀ a' ∈ g'.head?,
    (∀ x ∈ g, price x < price a') ∧ tolerance * |price a| < |price a' - price a|

theorem groupsByPrice_clusters (ht : 0 ≤ tolerance) (price : ι → Rat) (items : List ι) :
    GroupsByPrice price tolerance items (clusters price tolerance items) := by
  have hflatten : (clusters price tolerance items).flatten = sortByPrice price items :=
    flatten_cutClusters ..
  refine ⟨flatten_clusters_perm .., ?_, fun p => ?_, fun g hg => ?_, ?_⟩
  · rw [hflatten]
    exact pairwise_sortByPrice price items
  · rw [hflatten]
    exact filter_sortByPrice price items p
  · obtain ⟨a, ha, hnear⟩ := exists_anchor_of_mem_clusters ht hg
    refine ⟨a, ha, fun x hx => ⟨(hnear x hx).1, ?_⟩⟩
    rw [abs_of_nonneg (sub_nonneg.2 (hnear x hx).1)]
    exact (hnear x hx).2
  · have hbeyond : (clusters price tolerance items).Pairwise fun g g' =>
        ∀ a ∈ g.head?, ∀ y ∈ g', tolerance * |price a| < price y - price a :=
      pairwise_cutClusters (pairwise_sortByPrice price items)
    refine hbeyond.imp_of_mem fun {g g'} hg _ hfar a ha a' ha' => ?_
    have hgap := hfar a ha a' (List.mem_of_mem_head? ha')
    refine ⟨fun x hx => ?_, hgap.trans_le (le_abs_self _)⟩
    obtain ⟨b, hb, hnear⟩ := exists_anchor_of_mem_clusters ht hg
    rw [Option.mem_def, hb, Option.some.injEq] at ha
    subst ha
    linarith [(hnear x hx).2]

namespace Pool

variable {bars : List (Bar Rat)} {bias : Bias} {settings : LiquiditySettings Rat}

/-! ## Equal levels -/

/-- Whether pools are those of groups of two or more swings, no swing being in two groups. -/
def TakesOnce (barCount : Nat) (bias : Bias) (kind : SwingKind) (swings : List (Swing Rat))
    (pools : List (Pool Rat)) : Prop :=
  ∃ groups : List (List (Swing Rat)), groups.flatten.Subperm swings ∧
    List.Forall₂ (fun g p => 2 ≤ g.length ∧ p.touches = g.length ∧
      ofEqualSwings? barCount bias kind g = some p) groups pools

theorem of_ofEqualSwings? {α : Type} [Scalar α] {barCount : Nat} {kind : SwingKind}
    {swings : List (Swing α)} {p : Pool α} (h : ofEqualSwings? barCount bias kind swings = some p) :
    2 ≤ swings.length ∧ p.touches = swings.length ∧ p.kind = .ofEqual kind := by
  rw [ofEqualSwings?] at h
  split at h
  · obtain ⟨htwo, h⟩ := Option.ite_none_left_eq_some.1 h
    cases h
    exact ⟨Nat.not_lt.1 htwo, rfl, rfl⟩
  · cases h

theorem filter_equalLevels (bars : List (Bar Rat)) (swings : List (Swing Rat)) (bias : Bias)
    (settings : LiquiditySettings Rat) (kind : SwingKind) :
    (equalLevels bars swings bias settings).filter (·.kind = .ofEqual kind) =
      (clusters (·.price) settings.tolerance (swings.filter (·.kind = kind))).filterMap
        (ofEqualSwings? bars.length bias kind) := by
  have hone (kind' : SwingKind) :
      ((clusters (·.price) settings.tolerance (swings.filter (·.kind = kind'))).filterMap
        (ofEqualSwings? bars.length bias kind')).filter (·.kind = .ofEqual kind) =
      if kind' = kind then
        (clusters (·.price) settings.tolerance (swings.filter (·.kind = kind'))).filterMap
          (ofEqualSwings? bars.length bias kind')
      else [] := by
    split
    · next heq =>
      rw [List.filter_eq_self]
      intro p hp
      obtain ⟨g, -, hg⟩ := List.mem_filterMap.1 hp
      rw [(of_ofEqualSwings? hg).2.2, heq]
      exact decide_eq_true rfl
    · next hne =>
      rw [List.filter_eq_nil_iff]
      intro p hp
      obtain ⟨g, -, hg⟩ := List.mem_filterMap.1 hp
      rw [(of_ofEqualSwings? hg).2.2]
      cases kind <;> cases kind' <;> first | exact absurd rfl hne | decide
  rw [equalLevels, List.flatMap_cons, List.flatMap_cons, List.flatMap_nil, List.append_nil,
    List.filter_append, hone, hone]
  cases kind <;> simp

theorem takesOnce_equalLevels (bars : List (Bar Rat)) (swings : List (Swing Rat)) (bias : Bias)
    (settings : LiquiditySettings Rat) (kind : SwingKind) :
    TakesOnce bars.length bias kind (swings.filter (·.kind = kind))
      ((equalLevels bars swings bias settings).filter (·.kind = .ofEqual kind)) := by
  rw [filter_equalLevels]
  let groups := clusters (·.price) settings.tolerance (swings.filter (·.kind = kind))
  refine ⟨groups.filter fun g => (ofEqualSwings? bars.length bias kind g).isSome, ?_, ?_⟩
  · exact (List.filter_sublist.flatten.subperm).trans (flatten_clusters_perm ..).subperm
  · have hsome : ∀ g ∈ groups.filter fun g => (ofEqualSwings? bars.length bias kind g).isSome,
        (ofEqualSwings? bars.length bias kind g).isSome = true :=
      fun g hg => (List.mem_filter.1 hg).2
    have hpools := forall₂_filterMap hsome
    have hkept : (groups.filter fun g => (ofEqualSwings? bars.length bias kind g).isSome).filterMap
        (ofEqualSwings? bars.length bias kind) =
        groups.filterMap (ofEqualSwings? bars.length bias kind) := by
      rw [List.filterMap_filter]
      refine List.filterMap_congr fun g _ => ?_
      cases ofEqualSwings? bars.length bias kind g <;> rfl
    rw [hkept] at hpools
    exact hpools.imp fun g p hp => ⟨(of_ofEqualSwings? hp).1, (of_ofEqualSwings? hp).2.1, hp⟩

/-! ## Wick clusters -/

/-- Whether the bar has a long wick on a side. -/
def HasLongWick (settings : LiquiditySettings Rat) (side : Direction) (b : Bar Rat) : Prop :=
  0 < b.range ∧ settings.wickShare ≤ b.wick side / b.range

theorem mem_wickTips {side : Direction} {tip : Nat × Rat} :
    tip ∈ wickTips bars side settings ↔
      ∃ bar, bars[tip.1]? = some bar ∧ HasLongWick settings side bar ∧
        tip.2 = bar.extreme side := by
  obtain ⟨i, price⟩ := tip
  rw [wickTips, List.mem_filterMap]
  constructor
  · rintro ⟨⟨bar, j⟩, hbar, hsome⟩
    obtain ⟨hlong, htip⟩ := Option.ite_none_right_eq_some.1 hsome
    cases htip
    rw [Bool.and_eq_true, decide_eq_true_iff, decide_eq_true_iff, Scalar.zero_eq] at hlong
    exact ⟨bar, List.mem_zipIdx_iff_getElem?.1 hbar, hlong, rfl⟩
  · rintro ⟨bar, hbar, hlong, rfl⟩
    refine ⟨(bar, i), List.mem_zipIdx_iff_getElem?.2 hbar, if_pos ?_⟩
    rw [Bool.and_eq_true, decide_eq_true_iff, decide_eq_true_iff, Scalar.zero_eq]
    exact hlong

theorem nodup_wickTips (bars : List (Bar Rat)) (side : Direction)
    (settings : LiquiditySettings Rat) : ((wickTips bars side settings).map (·.1)).Nodup := by
  rw [wickTips, List.Nodup, List.pairwise_map, List.pairwise_filterMap]
  refine (pairwise_lt_zipIdx bars 0).imp fun {x y} hlt tip htip tip' htip' => ?_
  cases (Option.ite_none_right_eq_some.1 htip).2
  cases (Option.ite_none_right_eq_some.1 htip').2
  exact hlt.ne

theorem filter_wickClusters (bars : List (Bar Rat)) (settings : LiquiditySettings Rat)
    (side : Direction) :
    (wickClusters bars settings).filter (·.side = side) =
      ((clusters (·.2) settings.tolerance (wickTips bars side settings)).filter
        fun group => settings.wickTouches ≤ group.length).map fun group =>
          { price := outermost side (group.map (·.2))
            side := side
            touches := group.length
            barIndices := (group.map (·.1)).mergeSort (· ≤ ·) } := by
  rw [wickClusters, List.flatMap_cons, List.flatMap_cons, List.flatMap_nil, List.append_nil,
    List.filter_append, List.filter_map, List.filter_map]
  cases side <;> simp [Function.comp_def]

end Pool

/-- Whether a cluster names bars in order, once each, that have a long wick on its side. -/
structure WickCluster.NamesWicks (bars : List (Bar Rat)) (settings : LiquiditySettings Rat)
    (c : WickCluster Rat) : Prop where
  ascending : c.barIndices.Pairwise (· < ·)
  touches_eq : c.touches = c.barIndices.length
  isLong : ∀ i ∈ c.barIndices, ∃ bar, bars[i]? = some bar ∧ Pool.HasLongWick settings c.side bar

namespace Pool

variable {bars : List (Bar Rat)} {settings : LiquiditySettings Rat}

theorem nodup_wickBars (bars : List (Bar Rat)) (settings : LiquiditySettings Rat)
    (side : Direction) :
    (((clusters (·.2) settings.tolerance (wickTips bars side settings)).map
      (·.map (·.1))).flatten).Nodup := by
  rw [← List.map_flatten]
  exact ((flatten_clusters_perm ..).map _).nodup_iff.2 (nodup_wickTips bars side settings)

theorem namesWicks_of_mem_wickClusters {c : WickCluster Rat} (h : c ∈ wickClusters bars settings) :
    c.NamesWicks bars settings := by
  have hcoherent := coherent_of_mem_wickClusters h
  have hmem : c ∈ (wickClusters bars settings).filter (·.side = c.side) :=
    List.mem_filter.2 ⟨h, decide_eq_true rfl⟩
  rw [filter_wickClusters] at hmem
  obtain ⟨group, hgroup, hc⟩ := List.mem_map.1 hmem
  have hperm : c.barIndices.Perm (group.map (·.1)) := by
    rw [← hc]
    exact List.mergeSort_perm _ _
  have hgroup := List.mem_of_mem_filter hgroup
  refine ⟨?_, hcoherent.touches_eq, fun i hi => ?_⟩
  · have hnodup := (List.nodup_flatten.1 (nodup_wickBars bars settings c.side)).1 _
      (List.mem_map_of_mem hgroup)
    exact hcoherent.ascending.imp₂ (fun _ _ => Nat.lt_of_le_of_ne) (hperm.nodup_iff.2 hnodup)
  · obtain ⟨tip, htip, rfl⟩ := List.mem_map.1 (hperm.mem_iff.1 hi)
    obtain ⟨bar, hbar, hlong, -⟩ := mem_wickTips.1 ((clusters_spec hgroup).2 htip)
    exact ⟨bar, hbar, hlong⟩

theorem disjoint_wickClusters (bars : List (Bar Rat)) (settings : LiquiditySettings Rat)
    (side : Direction) :
    ((wickClusters bars settings).filter (·.side = side)).Pairwise fun c c' =>
      c.barIndices.Disjoint c'.barIndices := by
  rw [filter_wickClusters, List.pairwise_map]
  have hdisjoint := (List.nodup_flatten.1 (nodup_wickBars bars settings side)).2
  rw [List.pairwise_map] at hdisjoint
  refine (hdisjoint.filter _).imp fun {g g'} h => ?_
  exact fun i hi hi' => h ((List.mergeSort_perm _ _).mem_iff.1 hi)
    ((List.mergeSort_perm _ _).mem_iff.1 hi')

end Pool

/-- **Clusters group every item once.** In exact arithmetic, with a tolerance that is not negative,
clusters lose no item, repeat none and do not chain, and their prices do not depend on the order of
the items. So a swing is in one pool of equal levels of its kind at most, and a long wick in one
cluster of its side at most. -/
theorem clusters_group :
    (∀ {ι : Type} (price : ι → Rat) (tolerance : Rat) (items : List ι), 0 ≤ tolerance →
      GroupsByPrice price tolerance items (clusters price tolerance items) ∧
      ∀ items', items.Perm items' →
        (clusters price tolerance items').map (·.map price) =
          (clusters price tolerance items).map (·.map price)) ∧
    (∀ (bars : List (Bar Rat)) (swings : List (Swing Rat)) (bias : Bias)
      (settings : LiquiditySettings Rat) (kind : SwingKind),
      Pool.TakesOnce bars.length bias kind (swings.filter (·.kind = kind))
        ((Pool.equalLevels bars swings bias settings).filter (·.kind = .ofEqual kind))) ∧
    ∀ (bars : List (Bar Rat)) (settings : LiquiditySettings Rat),
      (∀ c ∈ Pool.wickClusters bars settings, c.NamesWicks bars settings) ∧
      ∀ side, ((Pool.wickClusters bars settings).filter (·.side = side)).Pairwise fun c c' =>
        c.barIndices.Disjoint c'.barIndices := by
  refine ⟨fun price tolerance items ht => ⟨groupsByPrice_clusters ht price items, ?_⟩,
    Pool.takesOnce_equalLevels, fun bars settings =>
      ⟨fun c hc => Pool.namesWicks_of_mem_wickClusters hc, Pool.disjoint_wickClusters bars settings⟩⟩
  exact fun items' hperm => map_clusters hperm.symm price tolerance

/-- Prices below, at and above zero, in no order. -/
def mixedPrices : List Rat := [100, 0, -101, 201 / 2, 103, -100, 0]

/-- Three bars with a long wick up to about one price. -/
def wickBars : List (Bar Rat) :=
  [110, 2202 / 20, 2201 / 20].zipIdx.map fun (high, i) =>
    ⟨.ofSeconds (60 * i), 100, high, 99, 100, 100⟩

theorem sortByPrice_mixedPrices :
    sortByPrice id mixedPrices = [-101, -100, 0, 0, 100, 201 / 2, 103] := by
  norm_num [sortByPrice, mixedPrices, List.mergeSort, Scalar.isLE_order]

theorem barIndices_wickBars :
    ((Pool.wickClusters wickBars .standard).filter (·.side = .bullish)).map (·.barIndices) =
      [[0, 1, 2]] := by
  have htips : Pool.wickTips wickBars .bullish .standard =
      [(0, 110), (1, 1101 / 10), (2, 2201 / 20)] := by decide +kernel
  have hsorted : sortByPrice (·.2) [(0, (110 : Rat)), (1, 1101 / 10), (2, 2201 / 20)] =
      [(0, 110), (2, 2201 / 20), (1, 1101 / 10)] := by
    norm_num [sortByPrice, List.mergeSort, Scalar.isLE_order]
  have hclusters : clusters (·.2) LiquiditySettings.standard.tolerance
      (Pool.wickTips wickBars .bullish .standard) =
        [[(0, 110), (2, 2201 / 20), (1, 1101 / 10)]] := by
    rw [htips, clusters, hsorted]
    decide +kernel
  rw [Pool.filter_wickClusters, hclusters]
  simp [LiquiditySettings.standard, List.mergeSort]

theorem clusters_group_mixed :
    (0 : Rat) ≤ 1 / 100 ∧ mixedPrices.Perm mixedPrices.reverse ∧
      clusters id (1 / 100) mixedPrices = [[-101, -100], [0, 0], [100, 201 / 2], [103]] ∧
      GroupsByPrice id (1 / 100) mixedPrices (clusters id (1 / 100) mixedPrices) ∧
      (clusters id (1 / 100) mixedPrices.reverse).map (·.map id) =
        (clusters id (1 / 100) mixedPrices).map (·.map id) ∧
      ∃ c ∈ Pool.wickClusters wickBars .standard, c.barIndices = [0, 1, 2] ∧
        c.NamesWicks wickBars .standard := by
  have ht : (0 : Rat) ≤ 1 / 100 := by norm_num
  have hperm : mixedPrices.Perm mixedPrices.reverse := (List.reverse_perm _).symm
  obtain ⟨hgroups, hprices⟩ := clusters_group.1 id (1 / 100) mixedPrices ht
  have hnamed := (clusters_group.2.2 wickBars .standard).1
  have hclusters : clusters id (1 / 100) mixedPrices =
      [[-101, -100], [0, 0], [100, 201 / 2], [103]] := by
    rw [clusters, sortByPrice_mixedPrices]
    decide +kernel
  obtain ⟨c, hc, hindex⟩ :=
    List.mem_map.1 (barIndices_wickBars ▸ List.mem_singleton_self [0, 1, 2])
  have hc := List.mem_of_mem_filter hc
  exact ⟨ht, hperm, hclusters, hgroups, hprices _ hperm, c, hc, hindex, hnamed c hc⟩

end PriceAction
