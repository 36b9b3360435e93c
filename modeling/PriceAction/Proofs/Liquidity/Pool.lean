import Mathlib.Data.List.Sigma
import PriceAction.Liquidity.State
import PriceAction.Proofs.Liquidity.Sweep
import PriceAction.Proofs.Search
import PriceAction.Proofs.Selection
import PriceAction.Proofs.Structure.Dated

/-!
# What holds of every pool

Seven constructors make pools, and one condition holds of all their pools (`Pool.Coherent`,
`Liquidity.coherent_of_mem_pools`): the role is that of the direction, the touches are dated by
their bars and lie in order, and there is at least one. Only magnets of primary role are marked as
primary (`Magnet.ofPools_spec`).
-/

namespace PriceAction

variable {α : Type}

/-! ## Lists -/

section Ordered

variable {β : Type} {r : β → β → Prop} {xs : List β} {a b : β}

theorem rel_of_head? (hrefl : ∀ a, r a a) (h : xs.Pairwise r) (ha : xs.head? = some a) :
    ∀ b ∈ xs, r a b := by
  obtain ⟨rest, rfl⟩ := List.head?_eq_some_iff.1 ha
  intro b hb
  rcases List.mem_cons.1 hb with rfl | hrest
  · exact hrefl b
  · exact (List.pairwise_cons.1 h).1 b hrest

theorem rel_of_getLast? (hrefl : ∀ a, r a a) (h : xs.Pairwise r) (hb : xs.getLast? = some b) :
    ∀ a ∈ xs, r a b := by
  obtain ⟨init, rfl⟩ := List.getLast?_eq_some_iff.1 hb
  intro a ha
  rcases List.mem_append.1 ha with hinit | hlast
  · exact (List.pairwise_append.1 h).2.2 a hinit b (List.mem_singleton_self b)
  · rw [List.mem_singleton.1 hlast]
    exact hrefl b

theorem rel_of_head?_of_getLast? (hrefl : ∀ a, r a a) (h : xs.Pairwise r) (ha : xs.head? = some a)
    (hb : xs.getLast? = some b) : r a b :=
  rel_of_head? hrefl h ha b (List.mem_of_getLast? hb)

end Ordered

/-! ## Clusters -/

variable [Scalar α]

theorem cutClusters_spec {ι : Type} {price : ι → α} {tolerance : α} {items group : List ι}
    (h : group ∈ cutClusters price tolerance items) : group ≠ [] ∧ group ⊆ items := by
  fun_induction cutClusters price tolerance items with
  | case1 => cases h
  | case2 x rest ih =>
    rcases List.mem_cons.1 h with rfl | hlater
    · exact ⟨List.cons_ne_nil _ _, List.cons_subset_cons x (List.takeWhile_subset _)⟩
    · obtain ⟨hne, hsub⟩ := ih hlater
      exact ⟨hne, List.Subset.trans hsub
        (List.subset_cons_of_subset x (List.dropWhile_sublist _).subset)⟩

theorem clusters_spec {ι : Type} {price : ι → α} {tolerance : α} {items group : List ι}
    (h : group ∈ clusters price tolerance items) : group ≠ [] ∧ group ⊆ items := by
  obtain ⟨hne, hsub⟩ := cutClusters_spec h
  exact ⟨hne, List.Subset.trans hsub (List.mergeSort_perm _ _).subset⟩

/-! ## Pools -/

namespace Pool

/-- What holds of a pool, whatever its kind. -/
structure Coherent (bars : List (Bar α)) (bias : Bias) (p : Pool α) : Prop where
  role : p.role = .relative p.direction bias
  first : Dated bars p.firstIndex p.firstTouch
  last : Dated bars p.lastIndex p.lastTouch
  firstIndex_le : p.firstIndex ≤ p.lastIndex
  touches_pos : 1 ≤ p.touches

variable {bars : List (Bar α)} {bias : Bias} {settings : LiquiditySettings α} {p : Pool α}

omit [Scalar α] in
theorem dated_timeAt {index : Nat} (h : index < bars.length) (fallback : Instant) :
    Dated bars index (timeAt bars index fallback) := by
  refine ⟨bars[index], List.getElem?_eq_getElem h, ?_⟩
  rw [timeAt, List.getElem?_eq_getElem h]
  rfl

theorem coherent_ofEqualSwings? {kind : SwingKind} {swings : List (Swing α)}
    (hswings : ∀ s ∈ swings, Dated bars s.index s.time)
    (h : ofEqualSwings? bars.length bias kind swings = some p) : p.Coherent bars bias := by
  rw [ofEqualSwings?] at h
  split at h
  · next first last hfirst hlast =>
    obtain ⟨htwo, h⟩ := Option.ite_none_left_eq_some.1 h
    cases h
    obtain ⟨hmem, hlatest⟩ := choose?_spec (fun a b c hab hbc => by grind) (fun a b => by grind) hlast
    have hstart := mem_of_choose? hfirst
    refine ⟨rfl, hswings first hstart, hswings last hmem, ?_, ?_⟩
    · exact of_decide_eq_true (hlatest first hstart)
    · show 1 ≤ swings.length
      omega
  · cases h

theorem coherent_equalLevels {swings : List (Swing α)}
    (hswings : ∀ s ∈ swings, Dated bars s.index s.time)
    (h : p ∈ equalLevels bars swings bias settings) : p.Coherent bars bias := by
  obtain ⟨kind, -, hkind⟩ := List.mem_flatMap.1 h
  obtain ⟨group, hgroup, hp⟩ := List.mem_filterMap.1 hkind
  refine coherent_ofEqualSwings? (fun s hs => ?_) hp
  exact hswings s (List.mem_of_mem_filter ((clusters_spec hgroup).2 hs))

theorem coherent_trendLiquidity? {structural : Structure α} (hcoherent : structural.Coherent bars)
    (h : trendLiquidity? structural = some p) : p.Coherent bars structural.bias := by
  obtain ⟨d, -, h⟩ := Option.bind_eq_some_iff.1 h
  obtain ⟨swing, hswing, h⟩ := Option.bind_eq_some_iff.1 h
  cases h
  have hdated := hcoherent.swings swing (List.mem_reverse.1 (List.mem_of_find?_eq_some hswing))
  exact ⟨rfl, hdated, hdated, Nat.le_refl _, Nat.le_refl _⟩

theorem coherent_ofRange? {range : TradingRange α} {side : Direction}
    (h : ofRange? bars range bias settings side = some p) : p.Coherent bars bias := by
  unfold ofRange? at h
  extract_lets price touching at h
  have hdated : ∀ x ∈ touching, Dated bars x.2 x.1.time := by
    intro x hx
    obtain ⟨hle, hget⟩ :=
      List.mem_zipIdx_iff_le_and_getElem?_sub.1 (List.mem_of_mem_filter hx)
    rw [TradingRange.window, List.getElem?_drop, List.getElem?_take,
      Option.ite_none_right_eq_some, Nat.add_sub_cancel' hle] at hget
    exact ⟨x.1, hget.2, rfl⟩
  have hordered : touching.Pairwise fun a b => a.2 ≤ b.2 := (pairwise_zipIdx _ _).filter _
  split at h
  · next first i last j hfirst hlast =>
    cases h
    have hmem := List.mem_of_mem_head? hfirst
    refine ⟨rfl, hdated _ hmem, hdated _ (List.mem_of_getLast? hlast), ?_, ?_⟩
    · exact rel_of_head?_of_getLast? (r := fun a b => a.2 ≤ b.2) (fun _ => Nat.le_refl _)
        hordered hfirst hlast
    · exact List.length_pos_of_mem hmem
  · cases h

theorem coherent_ofSession? {session : Session} {side : Direction}
    (h : ofSession? bars bias session side = some p) : p.Coherent bars bias := by
  obtain ⟨⟨bar, index⟩, hchosen, rfl⟩ := Option.map_eq_some_iff.1 h
  have hdated := dated_of_mem_zipIdx (List.mem_of_mem_filter (mem_of_choose? hchosen))
  exact ⟨rfl, hdated, hdated, Nat.le_refl _, Nat.le_refl _⟩

end Pool

/-! ## Sweeps -/

namespace Sweep

/-- Whether a sweep names two bars in order, with the time of the second, and a bar that closed
back. -/
structure Coherent (bars : List (Bar α)) (s : Sweep α) : Prop where
  dated : Dated bars s.barIndex s.time
  swingIndex_lt : s.swingIndex < s.barIndex
  reclaimIndex_lt : s.reclaimIndex < bars.length

variable {bars : List (Bar α)} {s : Sweep α}

theorem coherent_of_ofSwing? {swing : Swing α}
    (h : ofSwing? bars swing = some s) : s.Coherent bars := by
  obtain ⟨bar, after, hdrop, htime, hswing, hreclaim⟩ := exists_drop_of_ofSwing? h
  have hlength : bars.length - s.barIndex = after.length + 1 := by
    rw [← List.length_drop, hdrop, List.length_cons]
  refine ⟨⟨bar, ?_, htime.symm⟩, hswing, by omega⟩
  rw [← List.head?_drop, hdrop, List.head?_cons]

theorem coherent_of_mem_detect {swings : List (Swing α)} (h : s ∈ detect bars swings) :
    s.Coherent bars := by
  obtain ⟨swing, -, hswing⟩ := mem_detect_iff.1 h
  exact coherent_of_ofSwing? hswing

end Sweep

namespace Pool

variable {bars : List (Bar α)} {bias : Bias} {settings : LiquiditySettings α} {p : Pool α}

theorem coherent_ofSweep {s : Sweep α} (h : s.Coherent bars) :
    (ofSweep bars bias s).Coherent bars bias := by
  have hswing : s.swingIndex < bars.length := h.swingIndex_lt.trans h.dated.lt_length
  exact ⟨rfl, dated_timeAt hswing s.time, h.dated, h.swingIndex_lt.le, Nat.le_refl _⟩

end Pool

/-! ## Wick clusters -/

/-- Whether a cluster names bars in order, one for each touch and one at least. -/
structure WickCluster.Coherent (bars : List (Bar α)) (c : WickCluster α) : Prop where
  indices_lt : ∀ i ∈ c.barIndices, i < bars.length
  ascending : c.barIndices.Pairwise (· ≤ ·)
  touches_eq : c.touches = c.barIndices.length
  touches_pos : 1 ≤ c.touches

namespace Pool

theorem coherent_of_mem_wickClusters {c : WickCluster α} (h : c ∈ wickClusters bars settings) :
    c.Coherent bars := by
  obtain ⟨side, -, hside⟩ := List.mem_flatMap.1 h
  obtain ⟨group, hgroup, rfl⟩ := List.mem_map.1 hside
  obtain ⟨hne, hsub⟩ := clusters_spec (List.mem_of_mem_filter hgroup)
  refine ⟨?_, ?_, ?_, List.length_pos_of_ne_nil hne⟩
  · intro i hi
    rw [(List.mergeSort_perm _ _).mem_iff] at hi
    obtain ⟨tip, htip, rfl⟩ := List.mem_map.1 hi
    obtain ⟨⟨bar, j⟩, hbar, hsome⟩ := List.mem_filterMap.1 (hsub htip)
    have htip := (Option.ite_none_right_eq_some.1 hsome).2
    cases htip
    exact (dated_of_mem_zipIdx hbar).lt_length
  · have hsorted := @List.pairwise_mergeSort Nat (fun a b => decide (a ≤ b))
      (fun a b c hab hbc => by grind) (fun a b => by grind) (group.map (·.1))
    exact hsorted.imp of_decide_eq_true
  · simp

theorem coherent_ofWickCluster? {c : WickCluster α} (hc : c.Coherent bars)
    (h : ofWickCluster? bars bias c = some p) : p.Coherent bars bias := by
  obtain ⟨first, hfirst, h⟩ := Option.bind_eq_some_iff.1 h
  obtain ⟨last, hlast, h⟩ := Option.bind_eq_some_iff.1 h
  cases h
  refine ⟨rfl, dated_timeAt ?_ default, dated_timeAt ?_ default, ?_, hc.touches_pos⟩
  · exact hc.indices_lt first (List.mem_of_mem_head? hfirst)
  · exact hc.indices_lt last (List.mem_of_getLast? hlast)
  · exact rel_of_head?_of_getLast? Nat.le_refl hc.ascending hfirst hlast

end Pool

/-! ## Magnets -/

namespace Magnet

variable {pools : List (Pool α)} {m : Magnet α}

theorem not_primary_of_ofPools? (h : ofPools? pools = some m) : m.primary = false := by
  obtain ⟨dominant, -, rfl⟩ := Option.map_eq_some_iff.1 h
  rfl

section

variable {magnets : List (Magnet α)} (h : ∀ m ∈ magnets, m.primary = false)

include h

omit [Scalar α] in
theorem role_of_mem_marked {chosen : List Nat}
    (hchosen : ∀ i ∈ chosen, ∃ m, magnets[i]? = some m ∧ m.role = .primary)
    (hm : m ∈ magnets.zipIdx.map fun x =>
      if chosen.contains x.2 then { x.1 with primary := true } else x.1)
    (hprimary : m.primary = true) : m.role = .primary := by
  obtain ⟨⟨m', i⟩, hm', rfl⟩ := List.mem_map.1 hm
  have hget := List.mem_zipIdx_iff_getElem?.1 hm'
  dsimp only at hprimary hget ⊢
  split at hprimary
  · next hi =>
    obtain ⟨found, hfound, hrole⟩ := hchosen i (List.contains_iff_mem.1 hi)
    rw [hget, Option.some.injEq] at hfound
    rw [if_pos hi, hfound]
    exact hrole
  · rw [h m' (List.mem_of_getElem? hget)] at hprimary
    cases hprimary

omit [Scalar α] in
theorem countP_marked (chosen : List Nat) :
    (magnets.zipIdx.map fun x =>
      if chosen.contains x.2 then { x.1 with primary := true } else x.1).countP (·.primary) =
      ((magnets.zipIdx.filter fun x => chosen.contains x.2).map (·.2)).length := by
  rw [List.countP_map, List.length_map, ← List.countP_eq_length_filter]
  refine List.countP_congr fun x hx => ?_
  have hx := h x.1 (List.mem_of_getElem? (List.mem_zipIdx_iff_getElem?.1 hx))
  by_cases hi : x.2 ∈ chosen
  · simp [hi]
  · simp [hi, hx]

omit [Scalar α] in
theorem countP_marked_le (chosen : List Nat) :
    (magnets.zipIdx.map fun x =>
      if chosen.contains x.2 then { x.1 with primary := true } else x.1).countP (·.primary) ≤
      chosen.length := by
  have hnodup : ((magnets.zipIdx.filter fun x => chosen.contains x.2).map (·.2)).Nodup :=
    (List.nodup_zipIdx_map_snd magnets).sublist (List.filter_sublist.map _)
  have hsub : (magnets.zipIdx.filter fun x => chosen.contains x.2).map (·.2) ⊆ chosen := by
    intro i hi
    obtain ⟨x, hx, rfl⟩ := List.mem_map.1 hi
    exact List.contains_iff_mem.1 (List.mem_filter.1 hx).2
  rw [countP_marked h]
  exact (List.subperm_of_subset hnodup hsub).length_le

theorem markPrimary_spec {most : Nat} :
    (∀ m ∈ markPrimary most magnets, m.primary = true → m.role = .primary) ∧
      (markPrimary most magnets).countP (·.primary) ≤ most := by
  unfold markPrimary
  extract_lets candidates chosen
  have hchosen : ∀ i ∈ chosen, ∃ m, magnets[i]? = some m ∧ m.role = .primary := by
    intro i hi
    obtain ⟨⟨m, j⟩, hm, rfl⟩ := List.mem_map.1 hi
    have hcandidate := (List.mergeSort_perm _ _).mem_iff.1 (List.mem_of_mem_take hm)
    obtain ⟨hmem, hrole⟩ := List.mem_filter.1 hcandidate
    exact ⟨m, List.mem_zipIdx_iff_getElem?.1 hmem, of_decide_eq_true hrole⟩
  have hcount : chosen.length ≤ most := by
    rw [List.length_map]
    exact List.length_take_le ..
  exact ⟨fun m hm hprimary => role_of_mem_marked h hchosen hm hprimary,
    (countP_marked_le h chosen).trans hcount⟩

end

theorem ofPools_spec (pools : List (Pool α)) (tolerance : α) (most : Nat) :
    (∀ m ∈ ofPools pools tolerance most, m.primary = true → m.role = .primary) ∧
      (ofPools pools tolerance most).countP (·.primary) ≤ most := by
  apply markPrimary_spec
  intro m hm
  obtain ⟨group, -, hgroup⟩ := List.mem_filterMap.1 hm
  exact not_primary_of_ofPools? hgroup

end Magnet

/-! ## All pools -/

namespace Liquidity

variable {bars : List (Bar α)} {structural : Structure α} {context : MarketContext α}
  {settings : LiquiditySettings α}

/-- Where the pools come from, kind by kind. -/
theorem cases_of_mem_pools {p : Pool α} (h : p ∈ (analyze bars structural context settings).pools) :
    p ∈ Pool.equalLevels bars structural.swings structural.bias settings ∨
      Pool.trendLiquidity? structural = some p ∨
      (∃ range side, Pool.ofRange? bars range structural.bias settings side = some p) ∨
      (∃ s ∈ Sweep.detect bars structural.swings, p = Pool.ofSweep bars structural.bias s) ∨
      (∃ c ∈ Pool.wickClusters bars settings,
        Pool.ofWickCluster? bars structural.bias c = some p) ∨
      ∃ session side, Pool.ofSession? bars structural.bias session side = some p := by
  have hmem := (List.mergeSort_perm _ _).mem_iff.1 h
  simp only [poolsByKind, List.mem_append, Option.mem_toList, List.mem_map,
    List.mem_filterMap] at hmem
  rcases hmem with ((((hequal | htrend) | hrange) | ⟨s, hs, rfl⟩) | hwick) | hsession
  · exact .inl hequal
  · exact .inr (.inl htrend)
  · split at hrange
    · next range _ =>
      obtain ⟨side, -, hside⟩ := List.mem_filterMap.1 hrange
      exact .inr (.inr (.inl ⟨range, side, hside⟩))
    · cases hrange
  · exact .inr (.inr (.inr (.inl ⟨s, hs, rfl⟩)))
  · exact .inr (.inr (.inr (.inr (.inl hwick))))
  · obtain ⟨session, -, hsides⟩ := List.mem_flatMap.1 hsession
    obtain ⟨side, -, hside⟩ := List.mem_filterMap.1 hsides
    exact .inr (.inr (.inr (.inr (.inr ⟨session, side, hside⟩))))

theorem coherent_of_mem_pools (hstructural : structural.Coherent bars) {p : Pool α}
    (h : p ∈ (analyze bars structural context settings).pools) :
    p.Coherent bars structural.bias := by
  rcases cases_of_mem_pools h with hequal | htrend | ⟨range, side, hrange⟩ | ⟨s, hs, rfl⟩ |
    ⟨c, hc, hp⟩ | ⟨session, side, hsession⟩
  · exact Pool.coherent_equalLevels hstructural.swings hequal
  · exact Pool.coherent_trendLiquidity? hstructural htrend
  · exact Pool.coherent_ofRange? hrange
  · exact Pool.coherent_ofSweep (Sweep.coherent_of_mem_detect hs)
  · exact Pool.coherent_ofWickCluster? (Pool.coherent_of_mem_wickClusters hc) hp
  · exact Pool.coherent_ofSession? hsession

end Liquidity

end PriceAction
