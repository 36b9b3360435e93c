import Mathlib.Data.List.Induction
import Mathlib.Data.List.Nodup
import PriceAction.Proofs.DisjointSet
import PriceAction.Zone.Confluence

/-!
# Groups are what hangs from a root

Zones are collected in their order, and no root is above its numbers, so every group starts with
its root. The groups are, root by root, the zones that share it (`groups_eq`), where the sets are
those of the linked pairs (`joinLinked_eq`).
-/

namespace PriceAction.Zone

variable {α : Type}

/-! ## Collecting -/

/-- The roots among the first numbers. -/
def rootsBelow (s : DisjointSet) (count : Nat) : List Nat :=
  (List.range count).filter fun i => s.root i = i

/-- The zones that hang from a root. -/
def hanging (s : DisjointSet) (zones : List (Zone α)) (root : Nat) : List (Placed α) :=
  zones.zipIdx.filter fun x => s.root x.2 = root

/-- The groups of zones, each filed under its root. -/
def slots (s : DisjointSet) (zones : List (Zone α)) : List (Nat × List (Placed α)) :=
  (rootsBelow s zones.length).map fun root => (root, hanging s zones root)

theorem mem_rootsBelow {s : DisjointSet} {count i : Nat} :
    i ∈ rootsBelow s count ↔ i < count ∧ s.root i = i := by
  simp [rootsBelow]

theorem nodup_rootsBelow (s : DisjointSet) (count : Nat) : (rootsBelow s count).Nodup :=
  List.nodup_range.filter _

theorem addTo_of_mem {root : Nat} {keys : List Nat} (hkeys : keys.Nodup) (h : root ∈ keys)
    (x : Placed α) (f : Nat → List (Placed α)) :
    addTo root x (keys.map fun k => (k, f k)) =
      keys.map fun k => (k, if k = root then f k ++ [x] else f k) := by
  induction keys with
  | nil => cases h
  | cons k rest ih =>
    obtain ⟨hk, hrest⟩ := List.nodup_cons.1 hkeys
    rw [List.map_cons, List.map_cons, addTo]
    by_cases heq : k = root
    · subst heq
      have hsame : ∀ k' ∈ rest, (k', if k' = k then f k' ++ [x] else f k') = (k', f k') := by
        intro k' hk'
        have hne : k' ≠ k := fun h => hk (h ▸ hk')
        rw [if_neg hne]
      rw [if_pos rfl, if_pos rfl, List.map_congr_left hsame]
    · have hmem : root ∈ rest := (List.mem_cons.1 h).resolve_left (Ne.symm heq)
      rw [if_neg heq, if_neg heq, ih hrest hmem]

theorem addTo_of_not_mem {root : Nat} {keys : List Nat} (h : root ∉ keys) (x : Placed α)
    (f : Nat → List (Placed α)) :
    addTo root x (keys.map fun k => (k, f k)) =
      (keys.map fun k => (k, f k)) ++ [(root, [x])] := by
  induction keys with
  | nil => rfl
  | cons k rest ih =>
    rw [List.mem_cons, not_or] at h
    rw [List.map_cons, addTo, if_neg (Ne.symm h.1), ih h.2]
    rfl

theorem hanging_concat (s : DisjointSet) (zones : List (Zone α)) (z : Zone α) (root : Nat) :
    hanging s (zones ++ [z]) root =
      if root = s.root zones.length then hanging s zones root ++ [(z, zones.length)]
      else hanging s zones root := by
  rw [hanging, List.zipIdx_append, List.filter_append]
  split
  · next h => simp [hanging, h]
  · next h => simp [hanging, Ne.symm h]

theorem hanging_eq_nil (s : DisjointSet) {zones : List (Zone α)} {root : Nat}
    (h : zones.length ≤ root) : hanging s zones root = [] := by
  rw [hanging, List.filter_eq_nil_iff]
  rintro ⟨z, i⟩ hx hroot
  have hi : i < zones.length := (List.mem_zipIdx hx).2.1.trans_eq (Nat.zero_add _)
  have hle := s.root_le i
  rw [decide_eq_true_iff] at hroot
  dsimp only at hroot
  omega

theorem slots_concat (s : DisjointSet) (zones : List (Zone α)) (z : Zone α) :
    slots s (zones ++ [z]) = addTo (s.root zones.length) (z, zones.length) (slots s zones) := by
  have hlength : (zones ++ [z]).length = zones.length + 1 := List.length_append
  have hle := s.root_le zones.length
  by_cases hroot : s.root zones.length = zones.length
  · have hnew : s.root zones.length ∉ rootsBelow s zones.length := by
      rw [mem_rootsBelow]
      omega
    have hkeys : rootsBelow s (zones.length + 1) = rootsBelow s zones.length ++ [zones.length] := by
      simp [rootsBelow, List.range_succ, hroot]
    have hold : ∀ k ∈ rootsBelow s zones.length,
        (k, hanging s (zones ++ [z]) k) = (k, hanging s zones k) := by
      intro k hk
      have hne : k ≠ s.root zones.length := fun h => hnew (h ▸ hk)
      rw [hanging_concat, if_neg hne]
    rw [slots, slots, addTo_of_not_mem hnew, hlength, hkeys, List.map_append,
      List.map_congr_left hold, List.map_singleton, hanging_concat, if_pos hroot.symm,
      hanging_eq_nil s (Nat.le_refl _), hroot]
    rfl
  · have hmem : s.root zones.length ∈ rootsBelow s zones.length := by
      rw [mem_rootsBelow]
      exact ⟨by omega, s.root_root _⟩
    have hkeys : rootsBelow s (zones.length + 1) = rootsBelow s zones.length := by
      simp [rootsBelow, List.range_succ, hroot]
    rw [slots, slots, addTo_of_mem (nodup_rootsBelow s _) hmem, hlength, hkeys]
    exact List.map_congr_left fun k _ => by rw [hanging_concat]

theorem foldl_collect (s : DisjointSet) (zones : List (Zone α)) :
    (zones.zipIdx.foldl collect ([], s)).1 = slots s zones ∧
      ∀ i, (zones.zipIdx.foldl collect ([], s)).2.root i = s.root i := by
  induction zones using List.reverseRecOn with
  | nil => exact ⟨rfl, fun _ => rfl⟩
  | append_singleton zones z ih =>
    obtain ⟨hslots, hroots⟩ := ih
    have hzip : (zones ++ [z]).zipIdx = zones.zipIdx ++ [(z, zones.length)] := by
      simp [List.zipIdx_append]
    rw [hzip, List.foldl_concat, collect]
    dsimp only
    refine ⟨?_, fun i => ?_⟩
    · rw [slots_concat, DisjointSet.find_eq_root, hroots, hslots]
    · rw [DisjointSet.root_find, hroots]

/-! ## Joining -/

variable [Scalar α]

/-- The places of the linked pairs, in the order in which they are joined. -/
def linkedPairs (settings : ConfluenceSettings α) (volatility : α) :
    List (Placed α) → List (Nat × Nat)
  | [] => []
  | x :: rest =>
    (linked settings volatility x.1 rest).map (fun y => (x.2, y.2)) ++
      linkedPairs settings volatility rest

theorem joinLinked_eq (settings : ConfluenceSettings α) (volatility : α) (xs : List (Placed α))
    (s : DisjointSet) :
    joinLinked settings volatility xs s = s.unions (linkedPairs settings volatility xs) := by
  induction xs generalizing s with
  | nil => rfl
  | cons x rest ih =>
    rw [joinLinked, ih, linkedPairs, DisjointSet.unions, DisjointSet.unions, List.foldl_append,
      List.foldl_map]

/-- The sets of the zones at each place. -/
def joined (settings : ConfluenceSettings α) (volatility : α) (zones : List (Zone α)) :
    DisjointSet :=
  (DisjointSet.singletons zones.length).unions (linkedPairs settings volatility zones.zipIdx)

theorem groups_eq (settings : ConfluenceSettings α) (volatility : α) (zones : List (Zone α)) :
    groups settings volatility zones =
      (rootsBelow (joined settings volatility zones) zones.length).map
        (hanging (joined settings volatility zones) zones) := by
  rw [groups, joinLinked_eq, ← joined, (foldl_collect _ zones).1, slots, List.map_map]
  rfl

end PriceAction.Zone
