import Mathlib.Data.Set.Card
import PriceAction.Proofs.Search
import PriceAction.Proofs.Zone.Composite
import PriceAction.Proofs.Zone.Sweep

/-!
# Points of interest are connected components

The zones that can be members, wherever they stand among all zones found so far, are joined by an
edge when they belong together. The points of interest of a direction are, one for one, the
components of two zones or more of this graph (`pointsOf_components`).
-/

namespace PriceAction.Zone

/-! ## Places -/

/-- The zones of a direction that can be members, in the order in which they were found. -/
def candidates {α : Type} (d : Direction) (prior : List (Zone α)) : List (Zone α) :=
  prior.filter fun z => z.direction = d && z.kind ≠ .confluence && z.status.isLive

open Classical in
/-- The zones at some of the places of a list. -/
noncomputable def zonesAt {α : Type} (zones : List (Zone α)) (places : Set (Fin zones.length)) :
    List (Zone α) :=
  ((List.finRange zones.length).filter (· ∈ places)).map zones.get

theorem members_perm (d : Direction) (prior : List (Zone Rat)) :
    (members d prior).Perm (candidates d prior) :=
  List.mergeSort_perm _ _

theorem exists_equiv_of_perm {β : Type} {xs ys : List β} (h : xs.Perm ys) :
    ∃ σ : Fin xs.length ≃ Fin ys.length, ∀ i, ys.get (σ i) = xs.get i := by
  classical
  have hcount : ∀ (zs : List β) (b : β), Fintype.card {i // zs.get i = b} = zs.count b := by
    intro zs b
    conv_rhs => rw [← List.map_get_finRange zs]
    rw [Fintype.card_subtype, List.count, List.countP_map, List.countP_eq_length_filter]
    show ((List.finRange zs.length).filter fun i => decide (zs.get i = b)).length = _
    congr 1
  have hcard : ∀ b, Fintype.card {i // xs.get i = b} = Fintype.card {i // ys.get i = b} := by
    intro b
    rw [hcount, hcount, h.count_eq]
  exact ⟨Equiv.ofFiberEquiv fun b => Fintype.equivOfCardEq (hcard b),
    fun i => Equiv.ofFiberEquiv_map _ i⟩

theorem length_zonesAt {α : Type} (zones : List (Zone α)) (places : Set (Fin zones.length)) :
    (zonesAt zones places).length = places.ncard := by
  classical
  rw [zonesAt, List.length_map, Set.ncard_eq_toFinset_card']
  refine congrArg Finset.card (Finset.ext fun i => ?_ : Finset.univ.filter (· ∈ places) = _)
  simp

/-! ## Components -/

/-- Where the roots tell components apart, the roots of two places or more number the components
of that size. -/
theorem exists_components {n : Nat} (G : SimpleGraph (Fin n)) {root : Fin n → Nat}
    (hroot : ∀ i j, G.Reachable i j ↔ root i = root j) {roots : List Nat} (hnodup : roots.Nodup)
    (hmem : ∀ r, r ∈ roots ↔ (∃ i, root i = r) ∧ 2 ≤ {i | root i = r}.ncard) :
    ∃ f : Fin roots.length ≃ {c : G.ConnectedComponent // 2 ≤ c.supp.ncard},
      ∀ k, (f k).1.supp = {i | root i = roots.get k} := by
  have hsupp : ∀ i, (G.connectedComponentMk i).supp = {j | root j = root i} := by
    intro i
    ext j
    rw [SimpleGraph.ConnectedComponent.mem_supp_iff, SimpleGraph.ConnectedComponent.eq, hroot]
    rfl
  have hfirst : ∀ k, ∃ i, root i = roots.get k := fun k => ((hmem _).1 (roots.get_mem k)).1
  choose first hfirst using hfirst
  have hsize : ∀ k, 2 ≤ (G.connectedComponentMk (first k)).supp.ncard := by
    intro k
    rw [hsupp, hfirst]
    exact ((hmem _).1 (roots.get_mem k)).2
  have hbijective : Function.Bijective
      fun k => (⟨_, hsize k⟩ : {c : G.ConnectedComponent // 2 ≤ c.supp.ncard}) := by
    constructor
    · intro k l hkl
      have hreach := SimpleGraph.ConnectedComponent.eq.1 (congrArg Subtype.val hkl)
      rw [hroot, hfirst, hfirst] at hreach
      exact hnodup.get_inj_iff.1 hreach
    · rintro ⟨c, hc⟩
      obtain ⟨i, rfl⟩ := c.exists_rep
      change 2 ≤ (G.connectedComponentMk i).supp.ncard at hc
      rw [hsupp] at hc
      obtain ⟨k, hk⟩ := List.get_of_mem ((hmem (root i)).2 ⟨⟨i, rfl⟩, hc⟩)
      refine ⟨k, Subtype.ext (SimpleGraph.ConnectedComponent.eq.2 ?_)⟩
      rw [hroot, hfirst, hk]
  refine ⟨Equiv.ofBijective _ hbijective, fun k => ?_⟩
  rw [← hfirst]
  exact hsupp (first k)

/-! ## Groups -/

theorem zipIdx_eq_map_finRange {α : Type} (zones : List (Zone α)) :
    zones.zipIdx = (List.finRange zones.length).map fun i => (zones.get i, i.val) := by
  refine List.ext_getElem (by simp) fun i hi hi' => ?_
  simp

theorem map_fst_hanging {α : Type} (s : DisjointSet) (zones : List (Zone α)) (r : Nat) :
    (hanging s zones r).map (·.1) =
      ((List.finRange zones.length).filter fun i => s.root i.val = r).map zones.get := by
  rw [hanging, zipIdx_eq_map_finRange, List.filter_map, List.map_map]
  rfl

theorem hanging_perm {α : Type} (s : DisjointSet) {zones zones' : List (Zone α)}
    (σ : Fin zones'.length ≃ Fin zones.length) (hσ : ∀ i, zones.get (σ i) = zones'.get i)
    (r : Nat) : ((hanging s zones r).map (·.1)).Perm (zonesAt zones' {i | s.root (σ i) = r}) := by
  have hplaces : ((List.finRange zones'.length).map σ).Perm (List.finRange zones.length) := by
    refine (List.perm_ext_iff_of_nodup ?_ (List.nodup_finRange _)).2 fun i => ?_
    · exact (List.nodup_finRange _).map σ.injective
    · simp only [List.mem_map, List.mem_finRange, true_and, iff_true]
      exact σ.surjective i
  have hzones : zonesAt zones' {i | s.root (σ i) = r} =
      (((List.finRange zones'.length).map σ).filter fun i => s.root i.val = r).map zones.get := by
    rw [List.filter_map, List.map_map, zonesAt]
    have hget : zones.get ∘ σ = zones'.get := funext hσ
    rw [hget]
    congr 1
    exact List.filter_congr fun i _ => by simp
  rw [map_fst_hanging, hzones]
  exact ((hplaces.filter _).map _).symm

/-! ## Points of interest -/

/-- The points of interest of one direction. -/
def pointsOf (view : ZoneView Rat) (volatility : Rat) (d : Direction) (prior : List (Zone Rat)) :
    List (Zone Rat) :=
  let found := groups view.settings.confluence volatility (members d prior)
  (found.filter fun group => 2 ≤ group.length).filterMap fun group =>
    ofGroup? view d (group.map (·.1))

/-- The roots of the groups that make them. -/
def pointRoots (settings : ConfluenceSettings Rat) (volatility : Rat) (zones : List (Zone Rat)) :
    List Nat :=
  (rootsBelow (joined settings volatility zones) zones.length).filter fun root =>
    2 ≤ (hanging (joined settings volatility zones) zones root).length

theorem nodup_pointRoots (settings : ConfluenceSettings Rat) (volatility : Rat)
    (zones : List (Zone Rat)) : (pointRoots settings volatility zones).Nodup :=
  (nodup_rootsBelow _ _).filter _

variable {view : ZoneView Rat} {volatility : Rat} {prior : List (Zone Rat)}

theorem direction_of_mem_pointsOf {d : Direction} {z : Zone Rat}
    (h : z ∈ pointsOf view volatility d prior) : z.direction = d := by
  obtain ⟨group, -, hz⟩ := List.mem_filterMap.1 h
  exact direction_ofGroup hz

theorem confluences_eq (view : ZoneView Rat) (volatility : Rat) (prior : List (Zone Rat)) :
    confluences view volatility prior =
      pointsOf view volatility .bullish prior ++ pointsOf view volatility .bearish prior := by
  rw [confluences, List.flatMap_cons, List.flatMap_singleton]
  rfl

theorem filter_confluences (view : ZoneView Rat) (volatility : Rat) (prior : List (Zone Rat))
    (d : Direction) :
    (confluences view volatility prior).filter (·.direction = d) =
      pointsOf view volatility d prior := by
  have hall : ∀ d', (pointsOf view volatility d' prior).filter (·.direction = d) =
      if d' = d then pointsOf view volatility d' prior else [] := by
    intro d'
    split
    · next h =>
      refine List.filter_eq_self.2 fun z hz => decide_eq_true ?_
      exact (direction_of_mem_pointsOf hz).trans h
    · next h =>
      refine List.filter_eq_nil_iff.2 fun z hz => ?_
      rw [direction_of_mem_pointsOf hz, decide_eq_true_iff]
      exact h
  rw [confluences_eq, List.filter_append, hall, hall]
  cases d
  · exact List.append_nil _
  · rfl

/-- Point for point, what hangs from the roots. -/
theorem forall₂_pointsOf (view : ZoneView Rat) (volatility : Rat) (d : Direction)
    (prior : List (Zone Rat)) :
    List.Forall₂
      (fun root z => ofGroup? view d ((hanging
        (joined view.settings.confluence volatility (members d prior))
        (members d prior) root).map (·.1)) = some z)
      (pointRoots view.settings.confluence volatility (members d prior))
      (pointsOf view volatility d prior) := by
  have hpoints : pointsOf view volatility d prior =
      (pointRoots view.settings.confluence volatility (members d prior)).filterMap fun root =>
        ofGroup? view d ((hanging (joined view.settings.confluence volatility (members d prior))
          (members d prior) root).map (·.1)) := by
    rw [pointsOf, groups_eq, List.filter_map, List.filterMap_map]
    rfl
  rw [hpoints]
  refine forall₂_filterMap fun root hroot => ofGroup?_isSome ?_
  have hsize := of_decide_eq_true (List.mem_filter.1 hroot).2
  intro hnil
  rw [List.map_eq_nil_iff] at hnil
  rw [hnil] at hsize
  exact absurd hsize (by decide)

/-- The same zones in another order are joined by the same edges. -/
def linkGraphIso (settings : ConfluenceSettings Rat) (volatility : Rat)
    {zones zones' : List (Zone Rat)} (σ : Fin zones'.length ≃ Fin zones.length)
    (hσ : ∀ i, zones.get (σ i) = zones'.get i) :
    linkGraph settings volatility zones' ≃g linkGraph settings volatility zones where
  toEquiv := σ
  map_rel_iff' := by
    intro u v
    show σ u ≠ σ v ∧ belongsWith settings volatility (zones.get (σ u)) (zones.get (σ v)) = true ↔
      u ≠ v ∧ belongsWith settings volatility (zones'.get u) (zones'.get v) = true
    rw [hσ, hσ, σ.injective.ne_iff]

/-- The points of interest of a direction are the components of two candidates or more. -/
theorem pointsOf_components
    (hreach : 0 ≤ view.settings.confluence.gapVolatilities * volatility) (d : Direction) :
    ∃ f : Fin (pointsOf view volatility d prior).length ≃
        {c : (linkGraph view.settings.confluence volatility
          (candidates d prior)).ConnectedComponent // 2 ≤ c.supp.ncard},
      ∀ k, ((pointsOf view volatility d prior).get k).Comprises
        (zonesAt (candidates d prior) (f k).1.supp) := by
  obtain ⟨σ, hσ⟩ := exists_equiv_of_perm (members_perm d prior).symm
  have hperm := hanging_perm (joined view.settings.confluence volatility (members d prior)) σ hσ
  have hroot : ∀ i j, (linkGraph view.settings.confluence volatility
      (candidates d prior)).Reachable i j ↔
      (joined view.settings.confluence volatility (members d prior)).root (σ i) =
        (joined view.settings.confluence volatility (members d prior)).root (σ j) := by
    intro i j
    rw [root_joined_iff hreach (ascending_members d prior)]
    exact (linkGraphIso view.settings.confluence volatility σ hσ).reachable_iff.symm
  have hmem : ∀ r, r ∈ pointRoots view.settings.confluence volatility (members d prior) ↔
      (∃ i, (joined view.settings.confluence volatility (members d prior)).root (σ i) = r) ∧
        2 ≤ {i | (joined view.settings.confluence volatility
          (members d prior)).root (σ i) = r}.ncard := by
    intro r
    rw [← length_zonesAt, ← (hperm r).length_eq, List.length_map, pointRoots, List.mem_filter,
      mem_rootsBelow, decide_eq_true_iff]
    refine and_congr_left fun _ => ⟨fun ⟨hlt, hr⟩ => ?_, fun ⟨i, hi⟩ => ?_⟩
    · exact ⟨σ.symm ⟨r, hlt⟩, by rw [σ.apply_symm_apply]; exact hr⟩
    · rw [← hi, DisjointSet.root_root]
      exact ⟨lt_of_le_of_lt (DisjointSet.root_le _ _) (σ i).isLt, rfl⟩
  obtain ⟨f, hf⟩ := exists_components _ hroot (nodup_pointRoots _ _ _) hmem
  have hpoints := forall₂_pointsOf view volatility d prior
  have hlength := hpoints.length_eq
  refine ⟨(finCongr hlength.symm).trans f, fun k => ?_⟩
  have hk := hpoints.get (hlength.symm ▸ k.isLt) k.isLt
  exact (comprises_ofGroup hk).congr
    ((hperm _).trans (List.Perm.of_eq (congrArg (zonesAt _) (hf _).symm)))

end PriceAction.Zone
