import Mathlib.Data.Set.Function
import PriceAction.Proofs.Calendar.Order
import PriceAction.Proofs.Calendar.Text
import PriceAction.Proofs.Digest.NameId
import PriceAction.Proofs.Zone.Report

/-!
# No two zones share a name

The id of a zone is made from a name that can be read off the zone (`Zone.name`, `Zone.named_of_mem_all`).
Each search gives its zones different names: blocks by their ids, gaps by their times, breakers by
their blocks, points of interest by their members. The kind in front tells the searches apart
(`Zone.pairwise_id_all`).
-/

namespace PriceAction.Zone

variable {α : Type}

/-! ## Names -/

/-- The ids of the zones that a zone was made from. -/
def sourceIds (z : Zone α) : List NameId :=
  z.provenance.filterMap fun
    | .zone id _ => some id
    | .event .. => none
    | .gap .. => none
    | .sweep .. => none

/-- The origin of a zone, as its name has it. -/
def origin (z : Zone α) : String :=
  match z.kind, z.provenance with
  | .breaker, [.zone block _, .sweep _ _ swept, .event _ _ _ _ broken] =>
    block.text ++ "|" ++ swept.offsetText ++ "|" ++ broken.offsetText
  | .confluence, _ =>
    ",".intercalate ((z.sourceIds.map (·.text)).mergeSort fun a b => decide (a ≤ b))
  | _, _ => z.originTime.offsetText ++ "|" ++ z.direction.text

/-- The name that the id of a zone is made from. -/
def name (z : Zone α) : String :=
  z.kind.slug ++ "|" ++ z.timeframe.label ++ "|" ++ z.origin

/-- Whether a zone has the timeframe of a view and the id of its name. -/
structure Named (view : ZoneView α) (z : Zone α) : Prop where
  timeframe : z.timeframe = view.timeframe
  id : z.id = .ofName z.name
  sources : ∀ id ∈ z.sourceIds, id.value < 16 ^ 32

variable {view : ZoneView α} {volatility : α} {a b z : Zone α} {prior : List (Zone α)}

theorem Named.id_lt (h : Named view z) : z.id.value < 16 ^ 32 :=
  h.id ▸ NameId.ofName_lt z.name

theorem kind_eq_of_name (h : a.name = b.name) : a.kind = b.kind := by
  have hslug : ∀ k k' : ZoneKind, k.slug.toList.head? = k'.slug.toList.head? → k = k' := by
    intro k k'
    cases k <;> cases k' <;> decide
  have hfirst (z : Zone α) : z.name.toList.head? = z.kind.slug.toList.head? := by
    rw [name, String.toList_append, String.toList_append, String.toList_append,
      String.toList_append]
    cases z.kind <;> rfl
  apply hslug
  rw [← hfirst a, h, hfirst b]

theorem origin_eq_of_name (htimeframe : a.timeframe = b.timeframe) (h : a.name = b.name) :
    a.origin.toList = b.origin.toList := by
  have hkind := kind_eq_of_name h
  have hlists := congrArg String.toList h
  rw [name, name, hkind, htimeframe] at hlists
  simpa only [String.toList_append, List.append_right_inj] using hlists

/-! ## What is named how -/

variable [Scalar α]

theorem named_of_mem_orderBlocks (h : z ∈ orderBlocks view volatility) : Named view z := by
  obtain ⟨e, i, candle, index, -, -, rfl⟩ := exists_of_mem_orderBlocks h
  exact ⟨rfl, rfl, by simp [sourceIds, ofCandle, Break.provenance]⟩

theorem named_of_mem_imbalances (h : z ∈ imbalances view volatility) : Named view z := by
  obtain ⟨i, first, middle, last, later, -, hz⟩ := exists_of_mem_imbalances h
  obtain ⟨hkind, htimeframe, htime, -, -, hid, hprovenance⟩ := of_ofCandles? hz
  refine ⟨htimeframe, ?_, by simp [sourceIds, hprovenance]⟩
  rw [hid, idOf, name, origin, hkind, htimeframe, htime]

theorem named_of_mem_breakers (hprior : ∀ x ∈ prior, Named view x)
    (h : z ∈ breakers view volatility prior) : Named view z := by
  obtain ⟨block, s, e, i, hblock, -, -, -, -, rfl⟩ := exists_of_mem_breakers h
  refine ⟨rfl, rfl, ?_⟩
  have hlt := (hprior block hblock).id_lt
  simpa [sourceIds, ofTurn, Break.provenance] using hlt

theorem named_of_mem_beforeConfluences (h : z ∈ beforeConfluences view volatility) :
    Named view z := by
  simp only [beforeConfluences, List.mem_append] at h
  rcases h with (hblock | hgap) | hbreaker
  · exact named_of_mem_orderBlocks hblock
  · exact named_of_mem_imbalances hgap
  · exact named_of_mem_breakers (fun x hx => named_of_mem_orderBlocks hx) hbreaker

omit [Scalar α] in
theorem sourceIds_of_provenance {group : List (Zone α)}
    (h : z.provenance = group.map fun m => .zone m.id m.kind) : z.sourceIds = group.map (·.id) := by
  rw [sourceIds, h, List.filterMap_map]
  exact List.filterMap_eq_map_iff_forall_eq_some.2 fun _ _ => rfl

theorem named_of_ofGroup? {d : Direction} {group : List (Zone α)}
    (hgroup : ∀ m ∈ group, Named view m) (h : ofGroup? view d group = some z) : Named view z := by
  obtain ⟨-, -, -, hprovenance, -⟩ := exists_of_ofGroup? h
  have hsources := sourceIds_of_provenance hprovenance
  obtain ⟨youngest, -, rfl⟩ := Option.map_eq_some_iff.1 h
  refine ⟨rfl, ?_, ?_⟩
  · rw [name, origin, hsources, List.map_map]
    rfl
  · rw [hsources]
    intro id hid
    obtain ⟨m, hm, rfl⟩ := List.mem_map.1 hid
    exact (hgroup m hm).id_lt

theorem named_of_mem_confluences (hprior : ∀ x ∈ prior, Named view x)
    (h : z ∈ confluences view volatility prior) : Named view z := by
  obtain ⟨d, root, -, hz⟩ := exists_of_mem_confluences h
  refine named_of_ofGroup? (fun m hm => ?_) hz
  exact hprior m (mem_members_iff.1 (mem_members_of_mem_membersAt hm)).1

theorem named_of_mem_all (h : z ∈ (ZoneReport.analyze view).all) : Named view z := by
  rw [ZoneReport.all_analyze] at h
  split at h
  · rcases List.mem_append.1 h with hbefore | hconfluence
    · exact named_of_mem_beforeConfluences hbefore
    · exact named_of_mem_confluences (fun x hx => named_of_mem_beforeConfluences hx) hconfluence
  · cases h

/-! ## Order blocks, imbalances and breakers -/

theorem pairwise_name_orderBlocks (view : ZoneView α) (volatility : α) :
    (orderBlocks view volatility).Pairwise fun a b => a.name ≠ b.name := by
  refine (pairwise_orderBlocks view volatility).imp_of_mem fun ha hb hne hname => hne ?_
  rw [(named_of_mem_orderBlocks ha).id, (named_of_mem_orderBlocks hb).id, hname]

omit [Scalar α] in
theorem originTime_eq_of_name (ha : a.kind = .imbalance) (hb : b.kind = .imbalance)
    (htimeframe : a.timeframe = b.timeframe) (hregular : a.originTime.IsRegular)
    (hregular' : b.originTime.IsRegular) (h : a.name = b.name) : a.originTime = b.originTime := by
  have horigin := origin_eq_of_name htimeframe h
  rw [origin, origin, ha, hb, String.toList_append, String.toList_append, String.toList_append,
    String.toList_append] at horigin
  -- the names of both directions are equally long
  have hlength : a.direction.text.toList.length = b.direction.text.toList.length := by
    cases a.direction <;> cases b.direction <;> decide
  obtain ⟨htimes, -⟩ := List.append_inj' horigin hlength
  exact Instant.offsetText_injective hregular hregular'
    (String.toList_injective (List.append_cancel_right htimes))

/-- Gaps are found in the order of their middle candles. -/
theorem pairwise_originTime_imbalancesFrom (index : Nat) {bars : List (Bar α)}
    (hbars : bars.Pairwise fun a b => a.time < b.time) :
    (imbalancesFrom view volatility index bars).Pairwise fun a b => a.originTime < b.originTime := by
  fun_induction imbalancesFrom view volatility index bars with
  | case1 index first middle last later ih =>
    have htail := (List.pairwise_cons.1 hbars).2
    rw [List.pairwise_append]
    refine ⟨?_, ih htail, ?_⟩
    · cases ofCandles? view volatility (index + 1) first middle last later with
      | none => exact .nil
      | some z => exact List.pairwise_singleton ..
    · intro a ha b hb
      have hmiddle := (of_ofCandles? (Option.mem_toList.1 ha)).2.2.1
      obtain ⟨i, first', middle', last', later', hdrop, hb⟩ := exists_of_mem_imbalancesFrom hb
      rw [hmiddle, (of_ofCandles? hb).2.2.1]
      -- the middle candle of a later gap comes after the middle candle of this one
      have hmem : middle' ∈ last :: later := by
        have hlater : middle' ∈ (middle :: last :: later).drop (i + 1) := by
          rw [← List.drop_drop, hdrop]
          simp
        exact List.mem_of_mem_drop hlater
      exact (List.pairwise_cons.1 htail).1 middle' hmem
  | case2 => exact .nil

variable (hbars : view.bars.Pairwise fun a b => a.time < b.time)
  (hregular : ∀ bar ∈ view.bars, bar.time.IsRegular)

include hbars hregular

theorem pairwise_name_imbalances (volatility : α) :
    (imbalances view volatility).Pairwise fun a b => a.name ≠ b.name := by
  have htime : ∀ z ∈ imbalances view volatility, z.originTime.IsRegular := by
    intro z hz
    obtain ⟨i, first, middle, last, later, hdrop, hz⟩ := exists_of_mem_imbalances hz
    rw [(of_ofCandles? hz).2.2.1]
    apply hregular
    apply List.mem_of_mem_drop (i := i)
    rw [hdrop]
    simp
  refine (pairwise_originTime_imbalancesFrom 0 hbars).imp_of_mem fun ha hb hlt hname => ?_
  have hsame := originTime_eq_of_name (kind_of_mem_imbalances ha) (kind_of_mem_imbalances hb)
    ((named_of_mem_imbalances ha).timeframe.trans (named_of_mem_imbalances hb).timeframe.symm)
    (htime _ ha) (htime _ hb) hname
  exact (ne_of_lt hlt) hsame

omit hbars hregular in
theorem pairwise_name_breakers (hnamed : ∀ x ∈ prior, Named view x)
    (hprior : prior.Pairwise fun a b => a.id ≠ b.id) :
    (breakers view volatility prior).Pairwise fun a b => a.name ≠ b.name := by
  rw [breakers, List.pairwise_filterMap]
  refine (hprior.filter _).imp_of_mem fun {x y} hx hy hne a ha b hb hname => hne ?_
  obtain ⟨⟨s, e, i⟩, -, rfl⟩ := Option.map_eq_some_iff.1 ha
  obtain ⟨⟨s', e', i'⟩, -, rfl⟩ := Option.map_eq_some_iff.1 hb
  have horigin := origin_eq_of_name (by rfl) hname
  simp only [origin, ofTurn, Break.provenance, String.toList_append, List.append_assoc] at horigin
  exact NameId.eq_of_append (hnamed x (List.mem_of_mem_filter hx)).id_lt
    (hnamed y (List.mem_of_mem_filter hy)).id_lt horigin

theorem pairwise_name_beforeConfluences (volatility : α) :
    (beforeConfluences view volatility).Pairwise fun a b => a.name ≠ b.name := by
  have hbreakers : (breakers view volatility (orderBlocks view volatility)).Pairwise
      fun a b => a.name ≠ b.name :=
    pairwise_name_breakers (fun x hx => named_of_mem_orderBlocks hx)
      (pairwise_orderBlocks view volatility)
  rw [beforeConfluences, List.pairwise_append, List.pairwise_append]
  refine ⟨⟨pairwise_name_orderBlocks view volatility,
    pairwise_name_imbalances hbars hregular volatility, ?_⟩, hbreakers, ?_⟩
  · intro a ha b hb hname
    have hkind := kind_eq_of_name hname
    rw [kind_of_mem_orderBlocks ha, kind_of_mem_imbalances hb] at hkind
    cases hkind
  · intro a ha b hb hname
    have hkind := kind_eq_of_name hname
    rw [kind_of_mem_breakers hb] at hkind
    rcases List.mem_append.1 ha with hblock | hgap
    · rw [kind_of_mem_orderBlocks hblock] at hkind
      cases hkind
    · rw [kind_of_mem_imbalances hgap] at hkind
      cases hkind

/-! ## Points of interest -/

omit hbars hregular

omit [Scalar α] in
/-- Zones of different ids hang from different roots only. -/
theorem root_eq_of_hanging {s : DisjointSet} {zones : List (Zone α)}
    (h : zones.Pairwise fun a b => a.id ≠ b.id) {root root' : Nat} {x y : Placed α}
    (hx : x ∈ hanging s zones root) (hy : y ∈ hanging s zones root') (hid : x.1.id = y.1.id) :
    root = root' := by
  obtain ⟨hx, hroot⟩ := List.mem_filter.1 hx
  obtain ⟨hy, hroot'⟩ := List.mem_filter.1 hy
  obtain ⟨hi, hxi⟩ := List.getElem?_eq_some_iff.1 (List.mem_zipIdx_iff_getElem?.1 hx)
  obtain ⟨hj, hyj⟩ := List.getElem?_eq_some_iff.1 (List.mem_zipIdx_iff_getElem?.1 hy)
  have hplace : x.2 = y.2 := by
    rw [List.pairwise_iff_getElem] at h
    rcases Nat.lt_trichotomy x.2 y.2 with hlt | heq | hgt
    · exact absurd (by rw [hxi, hyj, hid]) (h x.2 y.2 hi hj hlt)
    · exact heq
    · exact absurd (by rw [hxi, hyj, hid]) (h y.2 x.2 hj hi hgt)
  rw [← of_decide_eq_true hroot, hplace, of_decide_eq_true hroot']

omit [Scalar α] in
theorem eq_of_id_eq (h : prior.Pairwise fun a b => a.id ≠ b.id) (ha : a ∈ prior) (hb : b ∈ prior)
    (hid : a.id = b.id) : a = b :=
  List.inj_on_of_nodup_map (List.pairwise_map.2 h) ha hb hid

theorem pairwise_members (d : Direction) (h : prior.Pairwise fun a b => a.id ≠ b.id) :
    (members d prior).Pairwise fun a b => a.id ≠ b.id :=
  ((List.mergeSort_perm _ _).pairwise_iff fun hab => hab.symm).2 (h.filter _)

theorem sourceIds_of_ofGroup? {d : Direction} {group : List (Zone α)}
    (h : ofGroup? view d group = some z) : z.sourceIds = group.map (·.id) :=
  sourceIds_of_provenance (exists_of_ofGroup? h).2.2.2.1

theorem exists_member_of_sourceId {d : Direction} {group : List (Placed α)}
    (hgroup : group ∈ (groups view.settings.confluence volatility (members d prior)).filter
      fun group => 2 ≤ group.length) (hz : ofGroup? view d (group.map (·.1)) = some z)
    {id : NameId} (hid : id ∈ z.sourceIds) : ∃ m ∈ members d prior, m.id = id := by
  obtain ⟨root, hmembers, -⟩ := exists_root_of_mem_groups hgroup
  rw [sourceIds_of_ofGroup? hz, hmembers] at hid
  obtain ⟨m, hm, rfl⟩ := List.mem_map.1 hid
  exact ⟨m, mem_members_of_mem_membersAt hm, rfl⟩

theorem pairwise_sourceIds_confluences (h : prior.Pairwise fun a b => a.id ≠ b.id) :
    (confluences view volatility prior).Pairwise fun a b => a.sourceIds.Disjoint b.sourceIds := by
  rw [confluences, List.pairwise_flatMap]
  constructor
  · intro d _
    rw [groups_eq, List.pairwise_filterMap]
    apply List.Pairwise.filter
    rw [List.pairwise_map]
    refine (nodup_rootsBelow _ _).imp fun {root root'} hne a ha b hb id hida hidb => hne ?_
    rw [sourceIds_of_ofGroup? ha, List.map_map] at hida
    rw [sourceIds_of_ofGroup? hb, List.map_map] at hidb
    obtain ⟨x, hx, hxid⟩ := List.mem_map.1 hida
    obtain ⟨y, hy, hyid⟩ := List.mem_map.1 hidb
    exact root_eq_of_hanging (pairwise_members d h) hx hy (hxid.trans hyid.symm)
  · rw [List.pairwise_pair]
    intro a ha b hb id hida hidb
    obtain ⟨group, hgroup, ha⟩ := List.mem_filterMap.1 ha
    obtain ⟨group', hgroup', hb⟩ := List.mem_filterMap.1 hb
    obtain ⟨m, hm, hmid⟩ := exists_member_of_sourceId hgroup ha hida
    obtain ⟨m', hm', hmid'⟩ := exists_member_of_sourceId hgroup' hb hidb
    obtain ⟨hprior, hup, -⟩ := mem_members_iff.1 hm
    obtain ⟨hprior', hdown, -⟩ := mem_members_iff.1 hm'
    rw [eq_of_id_eq h hprior hprior' (hmid.trans hmid'.symm), hdown] at hup
    cases hup

theorem exists_toList_intercalate (sep text : String) (rest : List String) :
    ∃ later, (sep.intercalate (text :: rest)).toList = text.toList ++ later := by
  cases rest with
  | nil => exact ⟨[], by rw [String.intercalate_singleton, List.append_nil]⟩
  | cons next rest =>
    refine ⟨sep.toList ++ (sep.intercalate (next :: rest)).toList, ?_⟩
    rw [String.intercalate_cons_cons, String.toList_append, String.toList_append,
      List.append_assoc]

omit [Scalar α] in
/-- The origin of a point of interest starts with the text of a member's id. -/
theorem exists_origin_of_confluence (hkind : z.kind = .confluence) (hsources : z.sourceIds ≠ []) :
    ∃ id ∈ z.sourceIds, ∃ later, z.origin.toList = id.text.toList ++ later := by
  have horigin : z.origin =
      ",".intercalate ((z.sourceIds.map (·.text)).mergeSort fun a b => decide (a ≤ b)) := by
    rw [origin, hkind]
  rw [horigin]
  have hperm := List.mergeSort_perm (z.sourceIds.map (·.text)) fun a b => decide (a ≤ b)
  cases hsorted : (z.sourceIds.map (·.text)).mergeSort fun a b => decide (a ≤ b) with
  | nil =>
    rw [hsorted, List.nil_perm, List.map_eq_nil_iff] at hperm
    exact absurd hperm hsources
  | cons text rest =>
    obtain ⟨id, hid, rfl⟩ := List.mem_map.1 (hperm.subset (hsorted ▸ List.mem_cons_self))
    exact ⟨id, hid, exists_toList_intercalate "," id.text rest⟩

theorem sourceIds_ne_nil_of_mem_confluences (h : z ∈ confluences view volatility prior) :
    z.sourceIds ≠ [] := by
  obtain ⟨d, root, htwo, hz⟩ := exists_of_mem_confluences h
  rw [sourceIds_of_ofGroup? hz, ne_eq, List.map_eq_nil_iff]
  intro hnil
  rw [hnil, List.length_nil] at htwo
  omega

theorem pairwise_name_confluences (hnamed : ∀ x ∈ prior, Named view x)
    (h : prior.Pairwise fun a b => a.id ≠ b.id) :
    (confluences view volatility prior).Pairwise fun a b => a.name ≠ b.name := by
  refine (pairwise_sourceIds_confluences h).imp_of_mem fun {a b} ha hb hdisjoint hname => ?_
  have hnameda := named_of_mem_confluences hnamed ha
  have hnamedb := named_of_mem_confluences hnamed hb
  have horigin := origin_eq_of_name (hnameda.timeframe.trans hnamedb.timeframe.symm) hname
  obtain ⟨id, hid, later, horigina⟩ := exists_origin_of_confluence (kind_of_mem_confluences ha)
    (sourceIds_ne_nil_of_mem_confluences ha)
  obtain ⟨id', hid', later', horiginb⟩ := exists_origin_of_confluence (kind_of_mem_confluences hb)
    (sourceIds_ne_nil_of_mem_confluences hb)
  rw [horigina, horiginb] at horigin
  have hsame := NameId.eq_of_append (hnameda.sources id hid) (hnamedb.sources id' hid') horigin
  exact hdisjoint hid (hsame ▸ hid')

/-! ## All zones -/

/-- Whether the zones of a list have different ids whenever their names differ. -/
def IdsTellNames (zones : List (Zone α)) : Prop :=
  Set.InjOn NameId.ofName {text | ∃ z ∈ zones, z.name = text}

omit [Scalar α] in
theorem IdsTellNames.subset {zones zones' : List (Zone α)} (h : IdsTellNames zones)
    (hsub : zones' ⊆ zones) : IdsTellNames zones' := by
  refine Set.InjOn.mono ?_ h
  rintro text ⟨z, hz, hname⟩
  exact ⟨z, hsub hz, hname⟩

omit [Scalar α] in
theorem idsTellNames_of_nodup {zones : List (Zone α)} (hnamed : ∀ z ∈ zones, Named view z)
    (h : (zones.map (·.id)).Nodup) : IdsTellNames zones := by
  rintro _ ⟨a, ha, rfl⟩ _ ⟨b, hb, rfl⟩ hid
  rw [← (hnamed a ha).id, ← (hnamed b hb).id] at hid
  rw [eq_of_id_eq (List.pairwise_map.1 h) ha hb hid]

omit [Scalar α] in
theorem pairwise_id_of_name {zones : List (Zone α)} (hids : IdsTellNames zones)
    (hnamed : ∀ z ∈ zones, Named view z) (h : zones.Pairwise fun a b => a.name ≠ b.name) :
    zones.Pairwise fun a b => a.id ≠ b.id := by
  refine h.imp_of_mem fun {a b} ha hb hne hid => hne ?_
  rw [(hnamed a ha).id, (hnamed b hb).id] at hid
  exact hids ⟨a, ha, rfl⟩ ⟨b, hb, rfl⟩ hid

theorem pairwise_id_all (hbars : view.bars.Pairwise fun a b => a.time < b.time)
    (hregular : ∀ bar ∈ view.bars, bar.time.IsRegular)
    (hids : IdsTellNames (ZoneReport.analyze view).all) :
    (ZoneReport.analyze view).all.Pairwise fun a b => a.id ≠ b.id := by
  have hnamed : ∀ z ∈ (ZoneReport.analyze view).all, Named view z := fun z hz =>
    named_of_mem_all hz
  refine pairwise_id_of_name hids hnamed ?_
  rw [ZoneReport.all_analyze] at hids ⊢
  cases hv : view.structural.volatility with
  | none => exact .nil
  | some v =>
    simp only [hv] at hids ⊢
    have hbefore := pairwise_name_beforeConfluences hbars hregular v
    have hnamed : ∀ z ∈ beforeConfluences view v, Named view z := fun z hz =>
      named_of_mem_beforeConfluences hz
    have hprior := pairwise_id_of_name (hids.subset (List.subset_append_left ..)) hnamed hbefore
    rw [List.pairwise_append]
    refine ⟨hbefore, pairwise_name_confluences hnamed hprior, ?_⟩
    intro a ha b hb hname
    have hkind := kind_eq_of_name hname
    rw [kind_of_mem_confluences hb] at hkind
    exact kind_ne_of_mem_beforeConfluences ha hkind

end PriceAction.Zone
