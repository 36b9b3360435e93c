import PriceAction.Proofs.Bounds.Liquidity
import PriceAction.Proofs.Liquidity.Cluster

/-!
# Magnets and their pools

Every cluster of pools has one magnet, whose band is that of their prices (`Magnet.Gathers`), and
clusters lie apart. So in exact arithmetic the bands of the magnets part the pools among themselves,
and the marked magnets are the strongest of primary role (`Magnet.ofPools_partition`).
-/

namespace PriceAction.Magnet

/-! ## The magnet of a group of pools -/

section Gathers

variable {group group' : List (Pool Rat)} {m : Magnet Rat} {tolerance : Rat}

/-- Whether the band of a magnet is that of a group of pools, with its price in it, the kind of
highest priority, and a strength that reaches that of every pool but not more than one. -/
structure Gathers (group : List (Pool Rat)) (m : Magnet Rat) : Prop where
  low : IsLeast {x | ∃ p ∈ group, p.price = x} m.low
  high : IsGreatest {x | ∃ p ∈ group, p.price = x} m.high
  price_mem : m.price ∈ Set.Icc m.low m.high
  kind : ∃ p ∈ group, p.kind = m.kind ∧ ∀ q ∈ group, p.kind.priority ≤ q.kind.priority
  strength_le : ∀ p ∈ group, p.strength ≤ m.strength
  strength_le_one : m.strength ≤ 1
  poolCount_eq : m.poolCount = group.length

theorem priority_le_of_choose? {α : Type} [Scalar α] {pools : List (Pool α)} {p : Pool α}
    (h : choose? outranks pools = some p) : ∀ q ∈ pools, p.kind.priority ≤ q.kind.priority := by
  cases pools with
  | nil => cases h
  | cons first rest =>
    rw [choose?, Option.some.injEq] at h
    subst h
    refine (foldl_choice (r := fun p q : Pool α => p.kind.priority ≤ q.kind.priority)
      (fun _ => Nat.le_refl _) (fun _ _ _ => Nat.le_trans) (fun kept later => ?_)
      (fun kept later => ?_) (fun kept later => ?_) first rest).2
    · exact (ite_eq_or_eq ..).symm
    · grind [outranks]
    · grind [outranks]

theorem gathers_of_ofPools? (h : ∀ p ∈ group, p.strength ∈ Shares) (hm : ofPools? group = some m) :
    m.Gathers group := by
  have hbounded := bounded_of_ofPools? h hm
  obtain ⟨dominant, hdominant, rfl⟩ := Option.map_eq_some_iff.1 hm
  have hmem := mem_of_choose? hdominant
  have hne : group.map (·.price) ≠ [] := List.ne_nil_of_mem (List.mem_map_of_mem hmem)
  have hprices : {x | x ∈ group.map (·.price)} = {x | ∃ p ∈ group, p.price = x} :=
    Set.ext fun _ => List.mem_map
  refine ⟨?_, ?_, ⟨hbounded.low_le, hbounded.le_high⟩,
    ⟨dominant, hmem, rfl, priority_le_of_choose? hdominant⟩, fun p hp => ?_,
    hbounded.strength.2, rfl⟩
  · rw [← hprices]
    exact Scalar.isLeast_least hne
  · rw [← hprices]
    exact Scalar.isGreatest_greatest hne
  · have hrest : ∀ x ∈ group.map fun p => 1.0 - Scalar.clamp p.strength 0.0 1.0, x ∈ Shares := by
      intro x hx
      obtain ⟨q, -, rfl⟩ := List.mem_map.1 hx
      exact Scalar.one_sub_mem (Scalar.clamp_mem q.strength)
    have hle := Scalar.product_le_of_mem hrest (List.mem_map_of_mem hp)
    rw [Scalar.clamp_eq_of_mem (h p hp)] at hle
    exact le_sub_comm.1 hle

namespace Gathers

theorem mark (h : m.Gathers group) (b : Bool) : { m with primary := b }.Gathers group :=
  ⟨h.low, h.high, h.price_mem, h.kind, h.strength_le, h.strength_le_one, h.poolCount_eq⟩

theorem perm (h : m.Gathers group) (hperm : group.Perm group') : m.Gathers group' where
  low := by simpa only [hperm.mem_iff] using h.low
  high := by simpa only [hperm.mem_iff] using h.high
  price_mem := h.price_mem
  kind := by simpa only [hperm.mem_iff] using h.kind
  strength_le := by simpa only [hperm.mem_iff] using h.strength_le
  strength_le_one := h.strength_le_one
  poolCount_eq := h.poolCount_eq.trans hperm.length_eq

theorem contains_of_mem (h : m.Gathers group) {p : Pool Rat} (hp : p ∈ group) :
    m.contains p.price = true := by
  rw [contains, Scalar.between, Bool.and_eq_true, decide_eq_true_iff, decide_eq_true_iff]
  exact ⟨h.low.2 ⟨p, hp, rfl⟩, h.high.2 ⟨p, hp, rfl⟩⟩

end Gathers

end Gathers

/-! ## Bands that lie apart -/

section Apart

variable {groups : List (List (Pool Rat))} {group : List (Pool Rat)} {magnets : List (Magnet Rat)}
  {m m' : Magnet Rat}

/-- Whether all prices of one group are below those of another. -/
def Apart (group group' : List (Pool Rat)) : Prop :=
  ∀ p ∈ group, ∀ q ∈ group', p.price < q.price

theorem Gathers.high_lt_low {group' : List (Pool Rat)} (h : m.Gathers group)
    (h' : m'.Gathers group') (hapart : Apart group group') : m.high < m'.low := by
  obtain ⟨p, hp, hhigh⟩ := h.high.1
  obtain ⟨q, hq, hlow⟩ := h'.low.1
  rw [← hhigh, ← hlow]
  exact hapart p hp q hq

/-- The pools of other groups lie outside the band. -/
theorem Gathers.filter_flatten (h : m.Gathers group) (hapart : groups.Pairwise Apart)
    (hmem : group ∈ groups) :
    groups.flatten.filter (fun p => m.contains p.price) = group := by
  obtain ⟨before, after, rfl⟩ := List.append_of_mem hmem
  obtain ⟨-, hafter, hbefore⟩ := List.pairwise_append.1 hapart
  obtain ⟨hafter, -⟩ := List.pairwise_cons.1 hafter
  obtain ⟨lowest, hlowest, hlow⟩ := h.low.1
  obtain ⟨highest, hhighest, hhigh⟩ := h.high.1
  have hbelow : before.flatten.filter (fun p => m.contains p.price) = [] := by
    refine List.filter_eq_nil_iff.2 fun p hp hin => ?_
    obtain ⟨g, hg, hp⟩ := List.mem_flatten.1 hp
    have hlt := hbefore g hg group List.mem_cons_self p hp lowest hlowest
    rw [contains, Scalar.between, Bool.and_eq_true, decide_eq_true_iff] at hin
    exact (hlow ▸ hlt).not_ge hin.1
  have habove : after.flatten.filter (fun p => m.contains p.price) = [] := by
    refine List.filter_eq_nil_iff.2 fun p hp hin => ?_
    obtain ⟨g, hg, hp⟩ := List.mem_flatten.1 hp
    have hlt := hafter g hg highest hhighest p hp
    rw [contains, Scalar.between, Bool.and_eq_true, decide_eq_true_iff, decide_eq_true_iff] at hin
    exact (hhigh ▸ hlt).not_ge hin.2
  have hself : group.filter (fun p => m.contains p.price) = group :=
    List.filter_eq_self.2 fun p hp => h.contains_of_mem hp
  rw [List.flatten_append, List.flatten_cons, List.filter_append, List.filter_append, hbelow,
    habove, hself, List.nil_append, List.append_nil]

end Apart

/-! ## Marking -/

section Marking

variable {magnets : List (Magnet Rat)} {m m' : Magnet Rat} {most i : Nat}

/-- The magnets of primary role with their places, the strongest first. -/
def candidates (magnets : List (Magnet Rat)) : List (Magnet Rat × Nat) :=
  (magnets.zipIdx.filter fun x => x.1.role = .primary).mergeSort fun x y => notAfter x.1 y.1

/-- The places of the magnets that are marked. -/
def chosen (most : Nat) (magnets : List (Magnet Rat)) : List Nat :=
  ((candidates magnets).take most).map (·.2)

theorem markPrimary_eq (most : Nat) (magnets : List (Magnet Rat)) :
    markPrimary most magnets = magnets.zipIdx.map fun x =>
      if (chosen most magnets).contains x.2 then { x.1 with primary := true } else x.1 := rfl

theorem mem_candidates_iff :
    (m, i) ∈ candidates magnets ↔ magnets[i]? = some m ∧ m.role = .primary := by
  rw [candidates, (List.mergeSort_perm _ _).mem_iff, List.mem_filter, decide_eq_true_iff,
    List.mem_zipIdx_iff_getElem?]

theorem nodup_candidates (magnets : List (Magnet Rat)) :
    ((candidates magnets).map (·.2)).Nodup := by
  rw [candidates, ((List.mergeSort_perm _ _).map _).nodup_iff]
  exact (List.nodup_zipIdx_map_snd magnets).sublist (List.filter_sublist.map _)

theorem notAfter_iff {a b : Magnet Rat} :
    notAfter a b = true ↔
      b.strength < a.strength ∨ b.strength = a.strength ∧ a.price ≤ b.price := by
  rw [notAfter, Scalar.order_eq, ← Scalar.isLE_order (a := a.price)]
  rcases lt_trichotomy b.strength a.strength with h | h | h
  · simp [h]
  · simp [h]
  · simp [h.not_gt, h, h.ne']

theorem pairwise_candidates (magnets : List (Magnet Rat)) :
    (candidates magnets).Pairwise fun x y => y.1.strength ≤ x.1.strength := by
  have hsorted : (candidates magnets).Pairwise fun x y => notAfter x.1 y.1 = true :=
    List.pairwise_mergeSort (fun a b c hab hbc => by grind [notAfter_iff])
      (fun a b => by grind [notAfter_iff]) _
  refine hsorted.imp fun h => ?_
  rcases notAfter_iff.1 h with hlt | ⟨heq, -⟩
  · exact hlt.le
  · exact heq.le

theorem exists_place_of_mem_markPrimary (hunmarked : ∀ m ∈ magnets, m.primary = false)
    (h : m ∈ markPrimary most magnets) :
    ∃ (m' : Magnet Rat) (i : Nat), magnets[i]? = some m' ∧
      m = { m' with primary := decide (i ∈ chosen most magnets) } := by
  rw [markPrimary_eq] at h
  obtain ⟨⟨m', i⟩, hm', rfl⟩ := List.mem_map.1 h
  have hget := List.mem_zipIdx_iff_getElem?.1 hm'
  refine ⟨m', i, hget, ?_⟩
  by_cases hi : i ∈ chosen most magnets
  · simp [hi]
  · simp [hi, ← hunmarked m' (List.mem_of_getElem? hget)]

theorem strength_le_of_not_primary (hunmarked : ∀ m ∈ magnets, m.primary = false)
    (hm : m ∈ markPrimary most magnets) (hm' : m' ∈ markPrimary most magnets)
    (hprimary : m.primary = true) (hleft : m'.primary = false) (hrole : m'.role = .primary) :
    m'.strength ≤ m.strength := by
  obtain ⟨strong, i, hi, rfl⟩ := exists_place_of_mem_markPrimary hunmarked hm
  obtain ⟨weak, j, hj, rfl⟩ := exists_place_of_mem_markPrimary hunmarked hm'
  obtain ⟨⟨found, _⟩, htaken, rfl⟩ := List.mem_map.1 (of_decide_eq_true hprimary)
  have hfound := (mem_candidates_iff.1 (List.mem_of_mem_take htaken)).1
  rw [hi, Option.some.injEq] at hfound
  subst hfound
  have hcandidate := mem_candidates_iff.2 ⟨hj, hrole⟩
  rw [← List.take_append_drop most (candidates magnets)] at hcandidate
  have hdropped : (weak, j) ∈ (candidates magnets).drop most :=
    (List.mem_append.1 hcandidate).resolve_left fun htake =>
      of_decide_eq_false hleft (List.mem_map_of_mem htake)
  have hordered := pairwise_candidates magnets
  rw [← List.take_append_drop most (candidates magnets)] at hordered
  exact (List.pairwise_append.1 hordered).2.2 _ htaken _ hdropped

theorem countP_role_markPrimary :
    (markPrimary most magnets).countP (·.role = .primary) =
      magnets.countP (·.role = .primary) := by
  conv_rhs => rw [← List.zipIdx_map_fst 0 magnets]
  rw [markPrimary_eq, List.countP_map, List.countP_map]
  refine List.countP_congr fun x _ => ?_
  simp only [Function.comp_apply]
  split <;> rfl

theorem countP_primary_markPrimary (hunmarked : ∀ m ∈ magnets, m.primary = false) :
    (markPrimary most magnets).countP (·.primary) =
      min most (magnets.countP (·.role = .primary)) := by
  have hplaces : ((magnets.zipIdx.filter fun x => (chosen most magnets).contains x.2).map
      (·.2)).Perm (chosen most magnets) := by
    refine (List.perm_ext_iff_of_nodup
      ((List.nodup_zipIdx_map_snd magnets).sublist (List.filter_sublist.map _))
      ((nodup_candidates magnets).sublist ((List.take_sublist ..).map _))).2 fun i => ?_
    constructor
    · intro hi
      obtain ⟨x, hx, rfl⟩ := List.mem_map.1 hi
      exact List.contains_iff_mem.1 (List.mem_filter.1 hx).2
    · intro hi
      obtain ⟨⟨m, _⟩, hm, rfl⟩ := List.mem_map.1 hi
      have hget := (mem_candidates_iff.1 (List.mem_of_mem_take hm)).1
      exact List.mem_map.2 ⟨_, List.mem_filter.2 ⟨List.mem_zipIdx_iff_getElem?.2 hget,
        List.contains_iff_mem.2 hi⟩, rfl⟩
  have hcandidates : (candidates magnets).length = magnets.countP (·.role = .primary) := by
    conv_rhs => rw [← List.zipIdx_map_fst 0 magnets]
    rw [candidates, List.length_mergeSort, List.countP_map, List.countP_eq_length_filter]
    rfl
  rw [markPrimary_eq, countP_marked hunmarked, hplaces.length_eq, chosen, List.length_map,
    List.length_take, hcandidates]

end Marking

/-! ## Pools parted among magnets -/

/-- The pools in the band of a magnet. -/
def members (m : Magnet Rat) (pools : List (Pool Rat)) : List (Pool Rat) :=
  pools.filter fun p => m.contains p.price

/-- Whether a price lies in the band of the magnet at a place. -/
def HoldsAt (magnets : List (Magnet Rat)) (price : Rat) (i : Nat) : Prop :=
  ∃ m, magnets[i]? = some m ∧ m.contains price = true

/-- How magnets part a list of pools: in ascending bands that lie apart and are no wider than the
tolerance, each with the pools in it, the strongest of primary role being marked. -/
structure Parts (pools : List (Pool Rat)) (tolerance : Rat) (most : Nat)
    (magnets : List (Magnet Rat)) : Prop where
  ascending : magnets.Pairwise fun m m' => m.price < m'.price ∧ m.high < m'.low
  existsUnique_band : ∀ p ∈ pools, ∃! i, HoldsAt magnets p.price i
  gathers : ∀ m ∈ magnets, m.Gathers (m.members pools)
  width_le : ∀ m ∈ magnets, m.high - m.low ≤ tolerance * |m.low|
  sum_poolCount : (magnets.map (·.poolCount)).sum = pools.length
  countP_primary : magnets.countP (·.primary) = min most (magnets.countP (·.role = .primary))
  role_of_primary : ∀ m ∈ magnets, m.primary = true → m.role = .primary
  strength_le : ∀ m ∈ magnets, ∀ m' ∈ magnets, m.primary = true → m'.primary = false →
    m'.role = .primary → m'.strength ≤ m.strength

section Partition

variable {pools : List (Pool Rat)} {groups : List (List (Pool Rat))} {magnets : List (Magnet Rat)}
  {m : Magnet Rat} {tolerance : Rat} {most : Nat}

theorem forall₂_markPrimary (h : List.Forall₂ (fun g m => m.Gathers g) groups magnets) :
    List.Forall₂ (fun g m => m.Gathers g) groups (markPrimary most magnets) := by
  rw [← List.zipIdx_map_fst 0 magnets, List.forall₂_map_right_iff] at h
  rw [markPrimary_eq, List.forall₂_map_right_iff]
  refine h.imp fun g x hx => ?_
  split
  · exact hx.mark true
  · exact hx

/-- Every cluster has its magnet. -/
theorem forall₂_ofPools (h : ∀ p ∈ pools, p.strength ∈ Shares) :
    List.Forall₂ (fun g m => m.Gathers g) (clusters (·.price) tolerance pools)
      (ofPools pools tolerance most) := by
  refine forall₂_markPrimary ?_
  have hmagnet : List.Forall₂ (fun g m => ofPools? g = some m)
      (clusters (·.price) tolerance pools)
      ((clusters (·.price) tolerance pools).filterMap ofPools?) :=
    forall₂_filterMap fun g hg => by
      rw [ofPools?, Option.isSome_map, Option.isSome_iff_ne_none, ne_eq, choose?_eq_none]
      exact (clusters_spec hg).1
  have hstrength : ∀ g ∈ clusters (·.price) tolerance pools, ∀ p ∈ g, p.strength ∈ Shares :=
    fun g hg p hp => h p ((clusters_spec hg).2 hp)
  exact ((List.forall₂_and_left _ _).2 ⟨hstrength, hmagnet⟩).imp
    fun g m hm => gathers_of_ofPools? hm.1 hm.2

theorem apart_clusters (ht : 0 ≤ tolerance) (pools : List (Pool Rat)) :
    (clusters (·.price) tolerance pools).Pairwise Apart :=
  pairwise_clusters ht _ pools

theorem pairwise_bands (h : List.Forall₂ (fun g m => m.Gathers g) groups magnets)
    (hapart : groups.Pairwise Apart) : magnets.Pairwise fun m m' => m.high < m'.low := by
  induction h with
  | nil => exact .nil
  | @cons g m groups magnets hm hrest ih =>
    obtain ⟨hfirst, hlater⟩ := List.pairwise_cons.1 hapart
    refine List.pairwise_cons.2 ⟨fun m' hm' => ?_, ih hlater⟩
    obtain ⟨g', hg', hgathers⟩ := exists_mem_of_forall₂ hrest hm'
    exact hm.high_lt_low hgathers (hfirst g' hg')

theorem width_le (ht : 0 ≤ tolerance) {group : List (Pool Rat)}
    (hgroup : group ∈ clusters (·.price) tolerance pools) (h : m.Gathers group) :
    m.high - m.low ≤ tolerance * |m.low| := by
  obtain ⟨a, ha, hnear⟩ := exists_anchor_of_mem_clusters ht hgroup
  -- the anchor of the cluster is its lowest pool
  have hlow : m.low = a.price :=
    h.low.unique ⟨⟨a, List.mem_of_mem_head? ha, rfl⟩, by
      rintro _ ⟨p, hp, rfl⟩
      exact (hnear p hp).1⟩
  obtain ⟨p, hp, hhigh⟩ := h.high.1
  rw [hlow, ← hhigh]
  exact (hnear p hp).2

theorem members_perm (ht : 0 ≤ tolerance) {group : List (Pool Rat)}
    (hgroup : group ∈ clusters (·.price) tolerance pools) (h : m.Gathers group) :
    group.Perm (m.members pools) := by
  rw [← h.filter_flatten (apart_clusters ht pools) hgroup, members]
  exact (flatten_clusters_perm _ tolerance pools).filter _

theorem existsUnique_band (hbands : magnets.Pairwise fun m m' => m.high < m'.low) {p : Pool Rat}
    (h : ∃ m ∈ magnets, m.contains p.price = true) :
    ∃! i, HoldsAt magnets p.price i := by
  have hfirst (i j : Nat) (m m' : Magnet Rat) (hi : magnets[i]? = some m)
      (hj : magnets[j]? = some m') (hm : m.contains p.price = true)
      (hm' : m'.contains p.price = true) : ¬i < j := by
    intro hlt
    obtain ⟨hilt, rfl⟩ := List.getElem?_eq_some_iff.1 hi
    obtain ⟨hjlt, rfl⟩ := List.getElem?_eq_some_iff.1 hj
    have hapart := List.pairwise_iff_getElem.1 hbands i j hilt hjlt hlt
    rw [contains, Scalar.between, Bool.and_eq_true, decide_eq_true_iff, decide_eq_true_iff]
      at hm hm'
    linarith [hm.2, hm'.1]
  obtain ⟨m, hmem, hm⟩ := h
  obtain ⟨i, hi⟩ := List.getElem?_of_mem hmem
  refine ⟨i, ⟨m, hi, hm⟩, ?_⟩
  rintro j ⟨m', hj, hm'⟩
  have hle := Nat.not_lt.1 (hfirst i j m m' hi hj hm hm')
  have hge := Nat.not_lt.1 (hfirst j i m' m hj hi hm' hm)
  exact Nat.le_antisymm hle hge

/-- **Magnets part the pools.** In exact arithmetic, with strengths from zero to one and a tolerance
that is not negative, the bands of the magnets lie apart and part the pools among themselves, and
the marked magnets are the strongest of primary role. -/
theorem ofPools_partition (hstrength : ∀ p ∈ pools, p.strength ∈ Shares) (ht : 0 ≤ tolerance)
    (most : Nat) : Parts pools tolerance most (ofPools pools tolerance most) := by
  have hmagnets : List.Forall₂ (fun g m => m.Gathers g) (clusters (·.price) tolerance pools)
      (ofPools pools tolerance most) := forall₂_ofPools hstrength
  have hgroups := flatten_clusters_perm (Pool.price (α := Rat)) tolerance pools
  have hbands := pairwise_bands hmagnets (apart_clusters ht pools)
  have hunmarked : ∀ m ∈ (clusters (·.price) tolerance pools).filterMap ofPools?,
      m.primary = false := by
    intro m hm
    obtain ⟨group, -, hgroup⟩ := List.mem_filterMap.1 hm
    exact not_primary_of_ofPools? hgroup
  refine ⟨?_, fun p hp => existsUnique_band hbands ?_, fun m hm => ?_, fun m hm => ?_, ?_, ?_,
    (ofPools_spec pools tolerance most).1, fun m hm m' hm' => ?_⟩
  · refine hbands.imp_of_mem fun {m m'} hm hm' hlt => ⟨?_, hlt⟩
    obtain ⟨group, -, h⟩ := exists_mem_of_forall₂ hmagnets hm
    obtain ⟨group', -, h'⟩ := exists_mem_of_forall₂ hmagnets hm'
    linarith [h.price_mem.2, h'.price_mem.1]
  · obtain ⟨group, hgroup, hp⟩ := List.mem_flatten.1 (hgroups.mem_iff.2 hp)
    obtain ⟨m, hm, h⟩ := exists_mem_of_forall₂ hmagnets.flip hgroup
    exact ⟨m, hm, h.contains_of_mem hp⟩
  · obtain ⟨group, hgroup, h⟩ := exists_mem_of_forall₂ hmagnets hm
    exact h.perm (members_perm ht hgroup h)
  · obtain ⟨group, hgroup, h⟩ := exists_mem_of_forall₂ hmagnets hm
    exact width_le ht hgroup h
  · have hcounts : (ofPools pools tolerance most).map (·.poolCount) =
        (clusters (·.price) tolerance pools).map List.length := by
      rw [← List.forall₂_eq_eq_eq, List.forall₂_map_left_iff, List.forall₂_map_right_iff]
      exact hmagnets.flip.imp fun m g h => h.poolCount_eq
    rw [hcounts, ← List.length_flatten, hgroups.length_eq]
  · rw [ofPools, countP_role_markPrimary]
    exact countP_primary_markPrimary hunmarked
  · exact strength_le_of_not_primary hunmarked hm hm'

end Partition

/-- Four pools below and above zero, two of which have the same price. -/
def mixedPools : List (Pool Rat) :=
  [(-5, 1), (10, 1 / 2), (-5, 1 / 4), (101 / 10, 0)].map fun (price, strength) =>
    { kind := .sweep
      price := price
      direction := .bullish
      role := .primary
      strength := strength
      touches := 1
      firstTouch := .ofSeconds 0
      lastTouch := .ofSeconds 0
      firstIndex := 0
      lastIndex := 0
      session := none }

theorem sortByPrice_mixedPools :
    sortByPrice (·.price) mixedPools =
      [mixedPools[0], mixedPools[2], mixedPools[1], mixedPools[3]] := by
  norm_num [sortByPrice, mixedPools, List.mergeSort, Scalar.isLE_order]

/-- They make two magnets of two pools each, the lower one of which is marked. -/
theorem ofPools_partition_mixed :
    (∀ p ∈ mixedPools, p.strength ∈ Shares) ∧ (0 : Rat) ≤ 1 / 100 ∧
      (ofPools mixedPools (1 / 100) 1).map (fun m => (m.low, m.high, m.poolCount, m.primary)) =
        [(-5, -5, 2, true), (10, 101 / 10, 2, false)] ∧
      Parts mixedPools (1 / 100) 1 (ofPools mixedPools (1 / 100) 1) := by
  have hstrength : ∀ p ∈ mixedPools, p.strength ∈ Shares := by
    simp only [mixedPools, List.map_cons, List.map_nil, List.forall_mem_cons, Set.mem_Icc]
    norm_num
  refine ⟨hstrength, by norm_num, ?_, ofPools_partition hstrength (by norm_num) 1⟩
  rw [ofPools, clusters, sortByPrice_mixedPools, markPrimary_eq, chosen, candidates,
    List.mergeSort_of_pairwise (by decide +kernel)]
  decide +kernel

end PriceAction.Magnet
