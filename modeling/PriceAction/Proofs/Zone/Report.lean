import PriceAction.Proofs.Liquidity.Pool
import PriceAction.Proofs.Zone.Groups
import PriceAction.Zone.Report

/-!
# What the searches find

The report lists order blocks, imbalances, the breakers of the blocks and the points of interest of
all three, in this order (`ZoneReport.all_analyze`). Each search is known by what its zones are made
of (`exists_of_mem_orderBlocks` and so on), and from that every zone has the role of its direction
and the time of its bar (`Zone.coherent_of_mem_all`).
-/

namespace PriceAction

namespace Zone

variable {α : Type} [Scalar α] {view : ZoneView α} {volatility : α} {z : Zone α}
  {prior : List (Zone α)}

/-! ## Order blocks -/

omit [Scalar α] in
theorem addNew_eq_or (zones : List (Zone α)) (z : Zone α) :
    (addNew zones z = zones ∧ ∃ x ∈ zones, x.id = z.id) ∨
      (addNew zones z = zones ++ [z] ∧ ∀ x ∈ zones, x.id ≠ z.id) := by
  rw [addNew]
  split
  · next hany => exact .inl ⟨rfl, by simpa using hany⟩
  · next hany => exact .inr ⟨rfl, by simpa using hany⟩

omit [Scalar α] in
theorem mem_of_mem_foldl_addNew {zones found : List (Zone α)} (h : z ∈ zones.foldl addNew found) :
    z ∈ found ∨ z ∈ zones := by
  induction zones generalizing found with
  | nil => exact .inl h
  | cons x rest ih =>
    rcases ih h with hfound | hrest
    · rcases addNew_eq_or found x with ⟨heq, -⟩ | ⟨heq, -⟩
      · exact .inl (heq ▸ hfound)
      · rw [heq, List.mem_append, List.mem_singleton] at hfound
        rcases hfound with hfound | rfl
        · exact .inl hfound
        · exact .inr List.mem_cons_self
    · exact .inr (List.mem_cons_of_mem x hrest)

omit [Scalar α] in
theorem pairwise_foldl_addNew (zones : List (Zone α)) {found : List (Zone α)}
    (h : found.Pairwise fun a b => a.id ≠ b.id) :
    (zones.foldl addNew found).Pairwise fun a b => a.id ≠ b.id := by
  induction zones generalizing found with
  | nil => exact h
  | cons x rest ih =>
    apply ih
    rcases addNew_eq_or found x with ⟨heq, -⟩ | ⟨heq, hnew⟩
    · rwa [heq]
    · rw [heq, List.pairwise_append]
      exact ⟨h, List.pairwise_singleton .., by simpa using hnew⟩

theorem pairwise_orderBlocks (view : ZoneView α) (volatility : α) :
    (orderBlocks view volatility).Pairwise fun a b => a.id ≠ b.id :=
  pairwise_foldl_addNew _ .nil

theorem exists_candle?_of_mem_orderBlocks (h : z ∈ orderBlocks view volatility) :
    ∃ e i candle index, view.structural.breaks[i]? = some e ∧
      candle? view.settings.orderBlock view.bars e = some (candle, index) ∧
      z = ofCandle view volatility e i candle index := by
  have hmem := (mem_of_mem_foldl_addNew h).resolve_left List.not_mem_nil
  obtain ⟨⟨e, i⟩, he, hz⟩ := List.mem_filterMap.1 hmem
  obtain ⟨⟨candle, index⟩, hcandle, rfl⟩ := Option.map_eq_some_iff.1 hz
  exact ⟨e, i, candle, index, List.mem_zipIdx_iff_getElem?.1 he, hcandle, rfl⟩

theorem exists_of_mem_orderBlocks (h : z ∈ orderBlocks view volatility) :
    ∃ e i candle index, view.structural.breaks[i]? = some e ∧ view.bars[index]? = some candle ∧
      z = ofCandle view volatility e i candle index := by
  obtain ⟨e, i, candle, index, he, hcandle, hz⟩ := exists_candle?_of_mem_orderBlocks h
  have hfound := List.mem_reverse.1 (List.mem_of_find?_eq_some hcandle)
  have hindex := List.mem_of_mem_take (List.mem_of_mem_drop hfound)
  exact ⟨e, i, candle, index, he, List.mem_zipIdx_iff_getElem?.1 hindex, hz⟩

theorem kind_of_mem_orderBlocks (h : z ∈ orderBlocks view volatility) : z.kind = .orderBlock := by
  obtain ⟨e, i, candle, index, -, -, rfl⟩ := exists_of_mem_orderBlocks h
  rfl

/-! ## Imbalances -/

theorem exists_of_mem_imbalancesFrom {index : Nat} {bars : List (Bar α)}
    (h : z ∈ imbalancesFrom view volatility index bars) :
    ∃ i first middle last later, bars.drop i = first :: middle :: last :: later ∧
      ofCandles? view volatility (index + i + 1) first middle last later = some z := by
  fun_induction imbalancesFrom view volatility index bars with
  | case1 index first middle last later ih =>
    rcases List.mem_append.1 h with hfirst | hlater
    · exact ⟨0, first, middle, last, later, rfl, Option.mem_toList.1 hfirst⟩
    · obtain ⟨i, first', middle', last', later', hdrop, hz⟩ := ih hlater
      refine ⟨i + 1, first', middle', last', later', hdrop, ?_⟩
      rwa [show index + (i + 1) + 1 = index + 1 + i + 1 by omega]
  | case2 => cases h

theorem exists_of_mem_imbalances (h : z ∈ imbalances view volatility) :
    ∃ i first middle last later, view.bars.drop i = first :: middle :: last :: later ∧
      ofCandles? view volatility (i + 1) first middle last later = some z := by
  obtain ⟨i, first, middle, last, later, hdrop, hz⟩ := exists_of_mem_imbalancesFrom h
  rw [Nat.zero_add] at hz
  exact ⟨i, first, middle, last, later, hdrop, hz⟩

theorem of_ofCandles? {index : Nat} {first middle last : Bar α} {later : List (Bar α)}
    (h : ofCandles? view volatility index first middle last later = some z) :
    z.kind = .imbalance ∧ z.timeframe = view.timeframe ∧ z.originTime = middle.time ∧
      z.originIndex = index ∧ z.role = .relative z.direction view.structural.bias ∧
      z.id = idOf .imbalance view.timeframe (middle.time.offsetText ++ "|" ++ z.direction.text) ∧
      z.provenance = [.gap first.time last.time] := by
  rw [ofCandles?, Option.bind_eq_some_iff] at h
  obtain ⟨⟨low, high, d⟩, -, h⟩ := h
  dsimp only at h
  rw [Option.ite_none_left_eq_some, Option.some.injEq] at h
  obtain ⟨-, rfl⟩ := h
  exact ⟨rfl, rfl, rfl, rfl, rfl, rfl, rfl⟩

theorem kind_of_mem_imbalances (h : z ∈ imbalances view volatility) : z.kind = .imbalance := by
  obtain ⟨i, first, middle, last, later, -, hz⟩ := exists_of_mem_imbalances h
  exact (of_ofCandles? hz).1

/-! ## Breakers -/

theorem exists_of_mem_breakers (h : z ∈ breakers view volatility prior) :
    ∃ block s e i, block ∈ prior ∧ block.kind = .orderBlock ∧ s ∈ view.liquidity.sweeps ∧
      view.structural.breaks[i]? = some e ∧ turn? view volatility block = some (s, e, i) ∧
      z = ofTurn view volatility block s e i := by
  obtain ⟨block, hblock, hz⟩ := List.mem_filterMap.1 h
  obtain ⟨hprior, hkind⟩ := List.mem_filter.1 hblock
  obtain ⟨⟨s, e, i⟩, hturn, rfl⟩ := Option.map_eq_some_iff.1 hz
  obtain ⟨s', hs', hfound⟩ := List.exists_of_findSome?_eq_some hturn
  obtain ⟨⟨e', i'⟩, he', heq⟩ := Option.map_eq_some_iff.1 hfound
  cases heq
  have he := List.mem_zipIdx_iff_getElem?.1 (List.mem_of_find?_eq_some he')
  exact ⟨block, s, e, i, hprior, of_decide_eq_true hkind, List.mem_of_mem_filter hs', he, hturn,
    rfl⟩

theorem kind_of_mem_breakers (h : z ∈ breakers view volatility prior) : z.kind = .breaker := by
  obtain ⟨block, s, e, i, -, -, -, -, -, rfl⟩ := exists_of_mem_breakers h
  rfl

/-! ## Points of interest -/

/-- The members of a point of interest: the zones that hang from one root. -/
def membersAt (view : ZoneView α) (volatility : α) (d : Direction) (prior : List (Zone α))
    (root : Nat) : List (Zone α) :=
  (hanging (joined view.settings.confluence volatility (members d prior)) (members d prior)
    root).map (·.1)

theorem mem_members_iff {d : Direction} :
    z ∈ members d prior ↔
      z ∈ prior ∧ z.direction = d ∧ z.kind ≠ .confluence ∧ z.status.isLive = true := by
  rw [members, (List.mergeSort_perm _ _).mem_iff, List.mem_filter]
  simp [and_assoc]

theorem mem_members_of_mem_membersAt {d : Direction} {root : Nat}
    (h : z ∈ membersAt view volatility d prior root) : z ∈ members d prior := by
  obtain ⟨⟨x, i⟩, hx, rfl⟩ := List.mem_map.1 h
  exact List.mem_of_getElem? (List.mem_zipIdx_iff_getElem?.1 (List.mem_of_mem_filter hx))

theorem exists_root_of_mem_groups {d : Direction} {group : List (Placed α)}
    (h : group ∈ (groups view.settings.confluence volatility (members d prior)).filter
      fun group => 2 ≤ group.length) :
    ∃ root, group.map (·.1) = membersAt view volatility d prior root ∧
      2 ≤ (membersAt view volatility d prior root).length := by
  obtain ⟨hmem, htwo⟩ := List.mem_filter.1 h
  rw [groups_eq] at hmem
  obtain ⟨root, -, rfl⟩ := List.mem_map.1 hmem
  refine ⟨root, rfl, ?_⟩
  rw [membersAt, List.length_map]
  exact of_decide_eq_true htwo

theorem exists_of_mem_confluences (h : z ∈ confluences view volatility prior) :
    ∃ d root, 2 ≤ (membersAt view volatility d prior root).length ∧
      ofGroup? view d (membersAt view volatility d prior root) = some z := by
  obtain ⟨d, -, hd⟩ := List.mem_flatMap.1 h
  obtain ⟨group, hgroup, hz⟩ := List.mem_filterMap.1 hd
  obtain ⟨root, hmembers, htwo⟩ := exists_root_of_mem_groups hgroup
  exact ⟨d, root, htwo, hmembers ▸ hz⟩

theorem exists_of_ofGroup? {d : Direction} {group : List (Zone α)}
    (h : ofGroup? view d group = some z) :
    z.kind = .confluence ∧ z.direction = d ∧ z.role = .relative d view.structural.bias ∧
      z.provenance = (group.map fun m => .zone m.id m.kind) ∧
      ∃ youngest ∈ group, z.originIndex = youngest.originIndex ∧
        z.originTime = youngest.originTime := by
  obtain ⟨youngest, hyoungest, rfl⟩ := Option.map_eq_some_iff.1 h
  exact ⟨rfl, rfl, rfl, rfl, youngest, mem_of_choose? hyoungest, rfl, rfl⟩

theorem kind_of_mem_confluences (h : z ∈ confluences view volatility prior) :
    z.kind = .confluence := by
  obtain ⟨d, root, -, hz⟩ := exists_of_mem_confluences h
  exact (exists_of_ofGroup? hz).1

/-! ## All zones -/

/-- The zones found before the search for points of interest. -/
def beforeConfluences (view : ZoneView α) (volatility : α) : List (Zone α) :=
  orderBlocks view volatility ++ imbalances view volatility ++
    breakers view volatility (orderBlocks view volatility)

theorem kind_ne_of_mem_beforeConfluences (h : z ∈ beforeConfluences view volatility) :
    z.kind ≠ .confluence := by
  simp only [beforeConfluences, List.mem_append] at h
  intro hkind
  rcases h with (hblock | hgap) | hbreaker
  · rw [kind_of_mem_orderBlocks hblock] at hkind
    cases hkind
  · rw [kind_of_mem_imbalances hgap] at hkind
    cases hkind
  · rw [kind_of_mem_breakers hbreaker] at hkind
    cases hkind

theorem breakers_append_imbalances (view : ZoneView α) (volatility : α) :
    breakers view volatility (orderBlocks view volatility ++ imbalances view volatility) =
      breakers view volatility (orderBlocks view volatility) := by
  have hnone : (imbalances view volatility).filter (·.kind = .orderBlock) = [] := by
    rw [List.filter_eq_nil_iff]
    intro z hz
    simp [kind_of_mem_imbalances hz]
  rw [breakers, List.filter_append, hnone, List.append_nil, ← breakers]

end Zone

open Zone

variable {α : Type} [Scalar α]

theorem ZoneReport.all_analyze (view : ZoneView α) :
    (analyze view).all = match view.structural.volatility with
      | some v => beforeConfluences view v ++ confluences view v (beforeConfluences view v)
      | none => [] := by
  simp only [analyze, searchOrder, List.foldl_cons, List.foldl_nil, search, detect]
  cases view.structural.volatility with
  | none => rfl
  | some v => simp only [List.nil_append, breakers_append_imbalances, beforeConfluences]

theorem ZoneReport.active_sublist (view : ZoneView α) :
    (analyze view).active.Sublist (analyze view).all :=
  List.filter_sublist

namespace Zone

/-- What holds of a zone, whatever its kind. -/
structure Coherent (view : ZoneView α) (z : Zone α) : Prop where
  role : z.role = .relative z.direction view.structural.bias
  origin : Dated view.bars z.originIndex z.originTime

variable {view : ZoneView α} {volatility : α} {z : Zone α}

theorem coherent_of_mem_beforeConfluences
    (hbreaks : ∀ e ∈ view.structural.breaks, Dated view.bars e.barIndex e.time)
    (h : z ∈ beforeConfluences view volatility) : z.Coherent view := by
  simp only [beforeConfluences, List.mem_append] at h
  rcases h with (hblock | hgap) | hbreaker
  · obtain ⟨e, i, candle, index, -, hcandle, rfl⟩ := exists_of_mem_orderBlocks hblock
    exact ⟨rfl, candle, hcandle, rfl⟩
  · obtain ⟨i, first, middle, last, later, hdrop, hz⟩ := exists_of_mem_imbalances hgap
    obtain ⟨-, -, htime, hindex, hrole, -⟩ := of_ofCandles? hz
    refine ⟨hrole, middle, ?_, htime.symm⟩
    rw [hindex, ← List.getElem?_drop, hdrop]
    rfl
  · obtain ⟨block, s, e, i, -, -, -, he, -, rfl⟩ := exists_of_mem_breakers hbreaker
    exact ⟨rfl, hbreaks e (List.mem_of_getElem? he)⟩

theorem coherent_of_mem_all
    (hbreaks : ∀ e ∈ view.structural.breaks, Dated view.bars e.barIndex e.time)
    (h : z ∈ (ZoneReport.analyze view).all) : z.Coherent view := by
  rw [ZoneReport.all_analyze] at h
  split at h
  · next v hv =>
    rcases List.mem_append.1 h with hbefore | hconfluence
    · exact coherent_of_mem_beforeConfluences hbreaks hbefore
    · obtain ⟨d, root, -, hz⟩ := exists_of_mem_confluences hconfluence
      obtain ⟨-, hdirection, hrole, -, youngest, hyoungest, hindex, htime⟩ := exists_of_ofGroup? hz
      have hmember := mem_members_iff.1 (mem_members_of_mem_membersAt hyoungest)
      have horigin := (coherent_of_mem_beforeConfluences hbreaks hmember.1).origin
      rw [← hindex, ← htime] at horigin
      exact ⟨hdirection ▸ hrole, horigin⟩
  · cases h

end Zone

theorem ZoneReport.countable_analyze {view : ZoneView α}
    (hbreaks : ∀ e ∈ view.structural.breaks, Dated view.bars e.barIndex e.time)
    (hlookback : view.bars.length + view.settings.lookback ≤ pow2 64) :
    (analyze view).Countable view.settings.lookback := by
  intro z hz _
  have hindex := (Zone.coherent_of_mem_all hbreaks hz).origin.lt_length
  omega

end PriceAction
