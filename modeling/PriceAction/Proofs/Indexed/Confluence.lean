import Mathlib.Order.MinMax
import PriceAction.Proofs.Indexed.Basic
import PriceAction.Proofs.Zone.Report

/-!
# Points of interest by position

Zones are compared and joined by their positions. The parents of the disjoint sets, the slots of
the roots, the groups and their members are lists that are read and written at positions. Parents
stay below the number of zones, every filed slot is that of a group, and the points of interest
are the same (`confluences?_eq`).
-/

namespace PriceAction.Indexed

variable {α : Type}

/-! ## Disjoint sets -/

/-- The root of a number, each parent on the way being read at its place. -/
def find? (s : DisjointSet) (x : Nat) : Option (Nat × DisjointSet) :=
  if x < s.parents.size ∧ s.parent x < s.parents.size then
    if s.parent x = x then some (x, s)
    else
      let grand := s.parent (s.parent x)
      find? (s.hang x grand (Nat.le_trans (s.parent_le _) (s.parent_le x))) grand
  else none
termination_by x
decreasing_by
  have hle := s.parent_le x
  have hgrand := s.parent_le (s.parent x)
  omega

def union? (s : DisjointSet) (a b : Nat) : Option DisjointSet := do
  let (ra, s) ← find? s a
  let (rb, s) ← find? s b
  if ra = rb then some s
  else if max ra rb < s.parents.size then some (s.hang (max ra rb) (min ra rb) min_le_max)
  else none

theorem find?_eq (s : DisjointSet) {x : Nat} (hx : x < s.parents.size) :
    find? s x = some (s.find x) := by
  induction x using Nat.strongRecOn generalizing s with
  | _ x ih =>
    have hparent := s.parent_le x
    have hgrand := s.parent_le (s.parent x)
    rw [find?, DisjointSet.find, if_pos ⟨hx, by omega⟩]
    by_cases h : s.parent x = x
    · rw [if_pos h, if_pos h]
    · rw [if_neg h, if_neg h]
      exact ih _ (by omega) _ (by rw [DisjointSet.parents_size_hang]; omega)

theorem union?_eq (s : DisjointSet) {a b : Nat} (ha : a < s.parents.size)
    (hb : b < s.parents.size) : union? s a b = some (s.union a b) := by
  have hra : (s.find a).1 ≤ a := by
    rw [s.find_eq_root]
    exact s.root_le a
  have hrb : ((s.find a).2.find b).1 ≤ b := by
    rw [DisjointSet.find_eq_root]
    exact DisjointSet.root_le _ b
  have hsize : (s.find a).2.parents.size = s.parents.size := s.parents_size_find a
  rw [union?, find?_eq s ha, DisjointSet.union]
  simp only [Option.bind_eq_bind, Option.bind_some]
  rw [find?_eq _ (by omega), Option.bind_some]
  split
  · rfl
  · rw [if_pos]
    rw [DisjointSet.parents_size_find]
    omega

/-! ## Joining -/

variable [Scalar α]

/-- Joins the zone at `i` with the linked ones at the positions after it. -/
def joinFrom? (settings : ConfluenceSettings α) (volatility : α) (zones : List (Zone α)) (i : Nat) :
    (positions : List Nat) → DisjointSet → Option DisjointSet
  | [], s => some s
  | j :: later, s => do
    let a ← zones[i]?
    let b ← zones[j]?
    if settings.gapVolatilities * volatility < b.low - a.high then some s
    else if Zone.belongsWith settings volatility a b then do
      let s ← union? s i j
      joinFrom? settings volatility zones i later s
    else joinFrom? settings volatility zones i later s

def joinAll? (settings : ConfluenceSettings α) (volatility : α) (zones : List (Zone α)) :
    (positions : List Nat) → DisjointSet → Option DisjointSet
  | [], s => some s
  | i :: later, s => do
    let s ← joinFrom? settings volatility zones i (List.range' (i + 1) (zones.length - (i + 1))) s
    joinAll? settings volatility zones later s

/-! ## Groups -/

/-- The slots of the roots and the groups in the slots. -/
structure Filing where
  slots : List (Option Nat)
  groups : List (List Nat)
  sets : DisjointSet

/-- Files a position in the slot of its root, or in a new slot after all others. -/
def fileAt? (f : Filing) (i : Nat) : Option Filing := do
  let (root, sets) ← find? f.sets i
  match ← f.slots[root]? with
  | some slot => do
    let group ← f.groups[slot]?
    let groups ← write? f.groups slot (group ++ [i])
    some ⟨f.slots, groups, sets⟩
  | none => do
    let slots ← write? f.slots root (some f.groups.length)
    some ⟨slots, f.groups ++ [[i]], sets⟩

/-- The positions of the zones of each group. -/
def groups? (settings : ConfluenceSettings α) (volatility : α) (zones : List (Zone α)) :
    Option (List (List Nat)) := do
  let positions := List.range' 0 zones.length
  let sets ← joinAll? settings volatility zones positions (.singletons zones.length)
  let filed ← positions.foldlM fileAt? ⟨List.replicate zones.length none, [], sets⟩
  some filed.groups

/-- The point of interest of some zones. The first of them is read in case none is the youngest. -/
def composite? (view : ZoneView α) (d : Direction) (zones : List (Zone α)) : Option (Zone α) := do
  let _first ← zones[0]?
  Zone.ofGroup? view d zones

/-- The point of interest of a group, if it has two members. -/
def groupOf? (view : ZoneView α) (d : Direction) (members : List (Zone α)) (group : List Nat) :
    Option (Option (Zone α)) :=
  if group.length < 2 then some none
  else do
    let zones ← group.mapM fun i => members[i]?
    let z ← composite? view d zones
    some (some z)

def confluences? (view : ZoneView α) (volatility : α) (prior : List (Zone α)) :
    Option (List (Zone α)) :=
  gather?
    (fun d => do
      let members := Zone.members d prior
      let groups ← groups? view.settings.confluence volatility members
      filterMap? (groupOf? view d members) groups)
    [.bullish, .bearish]

/-! ## Agreement -/

section

variable {settings : ConfluenceSettings α} {volatility : α} {zones : List (Zone α)}

theorem joinFrom?_eq {z : Zone α} {i : Nat} (hz : zones[i]? = some z) {later : List (Zone.Placed α)}
    (hlater : ∀ p ∈ later, zones[p.2]? = some p.1) {s : DisjointSet}
    (hs : s.parents.size = zones.length) :
    joinFrom? settings volatility zones i (later.map Prod.snd) s =
      some ((Zone.linked settings volatility z later).foldl (fun s y => s.union i y.2) s) := by
  induction later generalizing s with
  | nil => rfl
  | cons p rest ih =>
    have hp := hlater p List.mem_cons_self
    have hrest := @ih fun q hq => hlater q (List.mem_cons_of_mem p hq)
    have hi : i < s.parents.size := hs ▸ (List.getElem?_eq_some_iff.1 hz).1
    have hj : p.2 < s.parents.size := hs ▸ (List.getElem?_eq_some_iff.1 hp).1
    rw [List.map_cons, joinFrom?, hz, hp, Zone.linked, List.takeWhile_cons]
    simp only [Option.bind_eq_bind, Option.bind_some]
    by_cases hfar : settings.gapVolatilities * volatility < p.1.low - z.high
    · rw [if_pos hfar, decide_eq_true hfar]
      rfl
    · rw [if_neg hfar, decide_eq_false hfar, Bool.not_false, if_pos rfl, List.filter_cons]
      split
      · rw [union?_eq s hi hj, Option.bind_some,
          hrest (by rw [DisjointSet.parents_size_union, hs])]
        rfl
      · exact hrest hs

omit [Scalar α] in
theorem parents_size_foldl_union (i : Nat) (xs : List (Zone.Placed α)) (s : DisjointSet) :
    (xs.foldl (fun s y => s.union i y.2) s).parents.size = s.parents.size := by
  induction xs generalizing s with
  | nil => rfl
  | cons x rest ih => rw [List.foldl_cons, ih, DisjointSet.parents_size_union]

theorem parents_size_joinLinked (xs : List (Zone.Placed α)) (s : DisjointSet) :
    (Zone.joinLinked settings volatility xs s).parents.size = s.parents.size := by
  induction xs generalizing s with
  | nil => rfl
  | cons x rest ih => rw [Zone.joinLinked, ih, parents_size_foldl_union]

theorem joinAll?_eq {i n : Nat} (h : i + n = zones.length) {s : DisjointSet}
    (hs : s.parents.size = zones.length) :
    joinAll? settings volatility zones (List.range' i n) s =
      some (Zone.joinLinked settings volatility (zones.zipIdx.drop i) s) := by
  induction n generalizing i s with
  | zero =>
    rw [List.drop_eq_nil_of_le (by simp; omega)]
    rfl
  | succ n ih =>
    have hi : i < zones.length := by omega
    have hplace : zones.zipIdx.drop i = (zones[i], i) :: zones.zipIdx.drop (i + 1) := by
      rw [List.drop_eq_getElem_cons (by simpa using hi)]
      simp
    have hread : ∀ p ∈ zones.zipIdx.drop (i + 1), zones[p.2]? = some p.1 := fun p hp =>
      getElem?_of_mem_zipIdx (List.mem_of_mem_drop hp)
    rw [List.range'_succ, joinAll?, ← map_snd_drop_zipIdx,
      joinFrom?_eq (List.getElem?_eq_getElem hi) hread hs, hplace, Zone.joinLinked]
    simp only [Option.bind_eq_bind, Option.bind_some]
    exact ih (by omega) (by rw [parents_size_foldl_union, hs])

end

/-! ### Filing -/

section

variable {zones : List (Zone α)}

omit [Scalar α] in
theorem addTo_of_idxOf?_eq_some {root k : Nat} {filed : List (Nat × List (Zone.Placed α))}
    (h : (filed.map Prod.fst).idxOf? root = some k) (x : Zone.Placed α) :
    ∃ group, filed[k]? = some (root, group) ∧
      Zone.addTo root x filed = filed.set k (root, group ++ [x]) := by
  induction filed generalizing k with
  | nil => simp at h
  | cons slot rest ih =>
    rw [List.map_cons, List.idxOf?_cons] at h
    rw [Zone.addTo]
    by_cases heq : slot.1 = root
    · rw [if_pos (beq_iff_eq.2 heq)] at h
      cases h
      exact ⟨slot.2, by rw [← heq]; rfl, by rw [if_pos heq]; rfl⟩
    · rw [if_neg (by simpa using heq)] at h
      obtain ⟨k', hk', rfl⟩ := Option.map_eq_some_iff.1 h
      obtain ⟨group, hget, hadd⟩ := ih hk'
      exact ⟨group, by rwa [List.getElem?_cons_succ], by rw [if_neg heq, hadd]; rfl⟩

omit [Scalar α] in
theorem addTo_of_idxOf?_eq_none {root : Nat} {filed : List (Nat × List (Zone.Placed α))}
    (h : (filed.map Prod.fst).idxOf? root = none) (x : Zone.Placed α) :
    Zone.addTo root x filed = filed ++ [(root, [x])] := by
  induction filed with
  | nil => rfl
  | cons slot rest ih =>
    rw [List.map_cons, List.idxOf?_cons] at h
    rw [Zone.addTo]
    by_cases heq : slot.1 = root
    · rw [if_pos (beq_iff_eq.2 heq)] at h
      cases h
    · rw [if_neg (by simpa using heq), Option.map_eq_none_iff] at h
      rw [if_neg heq, ih h]
      rfl

/-- What has been filed: each group under its root, and the sets. -/
abbrev Filing.State (α : Type) := List (Nat × List (Zone.Placed α)) × DisjointSet

/-- Whether slots and groups hold what has been filed: each root has the slot of its group. -/
structure Filed (count : Nat) (f : Filing) (state : Filing.State α) : Prop where
  sets : f.sets = state.2
  size : state.2.parents.size = count
  groups : f.groups = state.1.map fun slot => slot.2.map Prod.snd
  length : f.slots.length = count
  slots : ∀ root < count, f.slots[root]? = some ((state.1.map Prod.fst).idxOf? root)

section

variable {count root : Nat} {f : Filing} {filed : List (Nat × List (Zone.Placed α))}
  {s s' : DisjointSet} (h : Filed count f (filed, s)) (hsize : s'.parents.size = count)

include h hsize

omit [Scalar α] in
/-- A root with a slot: its group takes the position in. -/
theorem filed_addTo_of_slot {slot : Nat} (hslot : (filed.map Prod.fst).idxOf? root = some slot)
    (x : Zone.Placed α) :
    ∃ group, f.groups[slot]? = some group ∧
      Filed count ⟨f.slots, f.groups.set slot (group ++ [x.2]), s'⟩
        (Zone.addTo root x filed, s') := by
  obtain ⟨group, hgroup, hadd⟩ := addTo_of_idxOf?_eq_some hslot x
  refine ⟨group.map Prod.snd, ?_, rfl, hsize, ?_, h.length, ?_⟩
  · rw [h.groups, List.getElem?_map, hgroup]
    rfl
  · rw [hadd, h.groups, List.map_set, List.map_append]
    rfl
  · have hkey : (filed.map Prod.fst)[slot]? = some root := by
      rw [List.getElem?_map, hgroup]
      rfl
    obtain ⟨_, hkey⟩ := List.getElem?_eq_some_iff.1 hkey
    rw [hadd, List.map_set, ← hkey, List.set_getElem_self]
    exact h.slots

omit [Scalar α] in
/-- A root without a slot: it gets the one after all others. -/
theorem filed_addTo_of_new (hroot : root < count)
    (hslot : (filed.map Prod.fst).idxOf? root = none) (x : Zone.Placed α) :
    Filed count ⟨f.slots.set root (some f.groups.length), f.groups ++ [[x.2]], s'⟩
      (Zone.addTo root x filed, s') := by
  have hadd := addTo_of_idxOf?_eq_none hslot x
  refine ⟨rfl, hsize, ?_, ?_, ?_⟩
  · rw [hadd, h.groups, List.map_append]
    rfl
  · rw [List.length_set, h.length]
  · intro other hlt
    rw [hadd, List.map_append, List.idxOf?, List.findIdx?_append, ← List.idxOf?,
      List.getElem?_set]
    by_cases heq : root = other
    · subst heq
      rw [if_pos rfl, if_pos (h.length.symm ▸ hroot), hslot, h.groups]
      simp
    · rw [if_neg heq, h.slots other hlt]
      simp [heq]

end

omit [Scalar α] in
theorem fileAt?_eq {count : Nat} {f : Filing} {state : Filing.State α} (h : Filed count f state)
    {x : Zone.Placed α} (hx : x.2 < count) :
    ∃ f', fileAt? f x.2 = some f' ∧ Filed count f' (Zone.collect state x) := by
  obtain ⟨filed, s⟩ := state
  have hroot : (s.find x.2).1 < count := by
    rw [s.find_eq_root]
    exact (s.root_le x.2).trans_lt hx
  have hsize : (s.find x.2).2.parents.size = count := by rw [s.parents_size_find, h.size]
  rw [fileAt?, h.sets, find?_eq s (h.size.symm ▸ hx), Zone.collect]
  simp only [Option.bind_eq_bind, Option.bind_some, h.slots _ hroot]
  cases hslot : (filed.map Prod.fst).idxOf? (s.find x.2).1 with
  | some slot =>
    obtain ⟨group, hread, hfiled⟩ := filed_addTo_of_slot h hsize hslot x
    have hlt : slot < f.groups.length := (List.getElem?_eq_some_iff.1 hread).1
    dsimp only
    rw [hread, Option.bind_some, write?_eq hlt, Option.bind_some]
    exact ⟨_, rfl, hfiled⟩
  | none =>
    dsimp only
    rw [write?_eq (h.length.symm ▸ hroot), Option.bind_some]
    exact ⟨_, rfl, filed_addTo_of_new h hsize hroot hslot x⟩

omit [Scalar α] in
theorem foldlM_fileAt?_eq {count : Nat} {placed : List (Zone.Placed α)}
    (hplaced : ∀ x ∈ placed, x.2 < count) {f : Filing}
    {state : Filing.State α} (h : Filed count f state) :
    ∃ f', (placed.map Prod.snd).foldlM fileAt? f = some f' ∧
      Filed count f' (placed.foldl Zone.collect state) := by
  induction placed generalizing f state with
  | nil => exact ⟨f, rfl, h⟩
  | cons x rest ih =>
    obtain ⟨f', hf', h'⟩ := fileAt?_eq h (hplaced x List.mem_cons_self)
    rw [List.map_cons, List.foldlM_cons, hf']
    exact ih (fun y hy => hplaced y (List.mem_cons_of_mem x hy)) h'

theorem groups?_eq (settings : ConfluenceSettings α) (volatility : α) (zones : List (Zone α)) :
    groups? settings volatility zones =
      some ((Zone.groups settings volatility zones).map fun group => group.map Prod.snd) := by
  have hsize : (DisjointSet.singletons zones.length).parents.size = zones.length :=
    Array.size_range
  have hpositions : List.range' 0 zones.length = zones.zipIdx.map Prod.snd :=
    (List.zipIdx_map_snd 0 zones).symm
  have hstart : Filed (α := α) zones.length ⟨List.replicate zones.length none, [],
      Zone.joinLinked settings volatility zones.zipIdx (.singletons zones.length)⟩
      ([], Zone.joinLinked settings volatility zones.zipIdx (.singletons zones.length)) := by
    refine ⟨rfl, ?_, rfl, List.length_replicate, ?_⟩
    · rw [parents_size_joinLinked, hsize]
    · intro root hroot
      simp [hroot]
  have hlt : ∀ x ∈ zones.zipIdx, x.2 < zones.length := fun x hx =>
    (List.getElem?_eq_some_iff.1 (getElem?_of_mem_zipIdx hx)).1
  obtain ⟨f, hf, hfiled⟩ := foldlM_fileAt?_eq hlt hstart
  rw [groups?, joinAll?_eq (i := 0) (Nat.zero_add _) hsize, List.drop_zero]
  simp only [Option.bind_eq_bind, Option.bind_some]
  rw [hpositions, hf, Option.bind_some, hfiled.groups, Zone.groups, List.map_map]
  rfl

/-! ### Points of interest -/

omit [Scalar α] in
theorem mapM_getElem?_eq {zones : List (Zone α)} {group : List (Zone.Placed α)}
    (h : ∀ p ∈ group, zones[p.2]? = some p.1) :
    (group.map Prod.snd).mapM (fun i => zones[i]?) = some (group.map (·.1)) := by
  rw [List.mapM_map]
  exact mapM_eq_map h

theorem getElem?_of_mem_group {settings : ConfluenceSettings α} {volatility : α}
    {zones : List (Zone α)} {group : List (Zone.Placed α)}
    (h : group ∈ Zone.groups settings volatility zones) : ∀ p ∈ group, zones[p.2]? = some p.1 := by
  rw [Zone.groups_eq] at h
  obtain ⟨root, -, rfl⟩ := List.mem_map.1 h
  exact fun p hp => getElem?_of_mem_zipIdx (List.mem_of_mem_filter hp)

theorem groupOf?_eq (view : ZoneView α) (d : Direction) {members : List (Zone α)}
    {group : List (Zone.Placed α)} (h : ∀ p ∈ group, members[p.2]? = some p.1) :
    groupOf? view d members (group.map Prod.snd) =
      some (if 2 ≤ group.length then Zone.ofGroup? view d (group.map (·.1)) else none) := by
  rw [groupOf?, List.length_map]
  by_cases htwo : 2 ≤ group.length
  · rw [if_neg (by omega), if_pos htwo, mapM_getElem?_eq h]
    simp only [Option.bind_eq_bind, Option.bind_some]
    obtain ⟨p, rest, rfl⟩ : ∃ p rest, group = p :: rest :=
      List.exists_cons_of_length_pos (by omega)
    obtain ⟨z, hz⟩ : ∃ z, Zone.ofGroup? view d ((p :: rest).map (·.1)) = some z := ⟨_, rfl⟩
    rw [composite?, hz]
    rfl
  · rw [if_pos (by omega), if_neg htwo]

theorem confluences?_eq (view : ZoneView α) (volatility : α) (prior : List (Zone α)) :
    confluences? view volatility prior = some (Zone.confluences view volatility prior) := by
  apply gather?_eq_flatMap
  intro d _
  dsimp only
  rw [groups?_eq]
  simp only [Option.bind_eq_bind, Option.bind_some]
  rw [List.filterMap_filter, filterMap?, List.mapM_map, ← filterMap?]
  apply filterMap?_eq_filterMap
  intro group hgroup
  simp only [Function.comp_apply, decide_eq_true_eq]
  exact groupOf?_eq view d (getElem?_of_mem_group hgroup)

end

end PriceAction.Indexed
