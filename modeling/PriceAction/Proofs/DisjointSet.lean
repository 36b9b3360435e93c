import Mathlib.Logic.Relation
import Mathlib.Order.Nat
import PriceAction.DisjointSet

/-!
# Disjoint sets hold the closure of what was joined

A search finds the root and moves none (`find_eq_root`, `root_find`). Joining two numbers moves
what hangs from the upper of their roots to the lower one and nothing else (`root_union`). So after
any unions two numbers share a root exactly if the joined pairs connect them (`root_eq_iff`).
-/

namespace PriceAction.DisjointSet

/-- The number at the end of the path of parents. -/
def root (s : DisjointSet) (x : Nat) : Nat :=
  if s.parent x = x then x else s.root (s.parent x)
termination_by x
decreasing_by
  have := s.parent_le x
  omega

variable (s : DisjointSet)

/-! ## Roots -/

theorem root_of_parent_eq {x : Nat} (h : s.parent x = x) : s.root x = x := by
  rw [root, if_pos h]

theorem root_parent (x : Nat) : s.root (s.parent x) = s.root x := by
  by_cases h : s.parent x = x
  · rw [h]
  · rw [root.eq_def s x, if_neg h]

theorem parent_root (x : Nat) : s.parent (s.root x) = s.root x := by
  induction x using Nat.strongRecOn with
  | _ x ih =>
    by_cases h : s.parent x = x
    · rw [s.root_of_parent_eq h, h]
    · have := s.parent_le x
      rw [← s.root_parent x]
      exact ih _ (by omega)

theorem root_le (x : Nat) : s.root x ≤ x := by
  induction x using Nat.strongRecOn with
  | _ x ih =>
    by_cases h : s.parent x = x
    · exact (s.root_of_parent_eq h).le
    · have hle := s.parent_le x
      have hroot := ih (s.parent x) (by omega)
      rw [s.root_parent] at hroot
      exact hroot.trans hle

theorem root_root (x : Nat) : s.root (s.root x) = s.root x :=
  s.root_of_parent_eq (s.parent_root x)

theorem parent_eq_of_root_eq {x : Nat} (h : s.root x = x) : s.parent x = x := by
  have := s.parent_root x
  rwa [h] at this

/-! ## Hanging -/

theorem parents_size_hang (x p : Nat) (h : p ≤ x) :
    (s.hang x p h).parents.size = s.parents.size :=
  Array.size_setIfInBounds

theorem parent_hang_of_ne {x y : Nat} (p : Nat) (h : p ≤ x) (hne : y ≠ x) :
    (s.hang x p h).parent y = s.parent y := by
  simp [parent, hang, hne.symm]

theorem parent_hang_self {x p : Nat} (h : p ≤ x) (hx : x < s.parents.size) :
    (s.hang x p h).parent x = p := by
  simp [parent, hang, hx]

theorem lt_size_of_parent_ne {x : Nat} (h : s.parent x ≠ x) : x < s.parents.size := by
  by_contra hx
  refine h ?_
  simp [parent, Nat.not_lt.1 hx]

/-- Where the numbers end up when one of them is hung below another. -/
theorem root_hang {x p : Nat} (hlt : p < x) (hx : x < s.parents.size)
    (hpath : s.parent x = x ∨ s.root p = s.root x) (y : Nat) :
    (s.hang x p hlt.le).root y = if s.root y = s.root x then s.root p else s.root y := by
  induction y using Nat.strongRecOn with
  | _ y ih =>
    have hself := s.parent_hang_self hlt.le hx
    by_cases hy : y = x
    · subst hy
      have hbelow := ih p hlt
      rw [if_pos rfl, ← root_parent, hself, hbelow]
      split
      · rfl
      · rfl
    · have hother := s.parent_hang_of_ne p hlt.le hy
      by_cases hroot : s.parent y = y
      · rw [root_of_parent_eq _ (hother.trans hroot), s.root_of_parent_eq hroot]
        split
        · next heq =>
          rcases hpath with hx' | hp
          · exact absurd (heq.trans (s.root_of_parent_eq hx')) hy
          · exact heq.trans hp.symm
        · rfl
      · have hle := s.parent_le y
        have hup := ih (s.parent y) (by omega)
        rw [← root_parent, hother, hup, s.root_parent]

/-! ## Searching -/

theorem find_of_parent_eq {x : Nat} (h : s.parent x = x) : s.find x = (x, s) := by
  rw [find, if_pos h]

/-- Halving a path keeps all roots. -/
theorem root_hang_grand {x : Nat} (h : s.parent x ≠ x) (hle : s.parent (s.parent x) ≤ x) (y : Nat) :
    (s.hang x (s.parent (s.parent x)) hle).root y = s.root y := by
  have hparent := s.parent_le x
  have hgrand := s.parent_le (s.parent x)
  have hroot : s.root (s.parent (s.parent x)) = s.root x := by
    rw [s.root_parent, s.root_parent]
  rw [s.root_hang (by omega) (s.lt_size_of_parent_ne h) (Or.inr hroot), hroot]
  split
  · next heq => exact heq.symm
  · rfl

theorem find_spec (x : Nat) :
    (s.find x).1 = s.root x ∧ (∀ y, (s.find x).2.root y = s.root y) ∧
      (s.find x).2.parents.size = s.parents.size := by
  induction x using Nat.strongRecOn generalizing s with
  | _ x ih =>
    by_cases h : s.parent x = x
    · rw [s.find_of_parent_eq h]
      exact ⟨(s.root_of_parent_eq h).symm, fun _ => rfl, rfl⟩
    · have hparent := s.parent_le x
      have hgrand := s.parent_le (s.parent x)
      have hle : s.parent (s.parent x) ≤ x := hgrand.trans hparent
      obtain ⟨hfind, hroot, hsize⟩ :=
        ih (s.parent (s.parent x)) (by omega) (s.hang x (s.parent (s.parent x)) hle)
      rw [find, if_neg h]
      refine ⟨?_, fun y => ?_, hsize.trans (s.parents_size_hang _ _ _)⟩
      · rw [hfind, s.root_hang_grand h, s.root_parent, s.root_parent]
      · rw [hroot, s.root_hang_grand h]

theorem find_eq_root (x : Nat) : (s.find x).1 = s.root x := (s.find_spec x).1

theorem root_find (x y : Nat) : (s.find x).2.root y = s.root y := (s.find_spec x).2.1 y

theorem parents_size_find (x : Nat) : (s.find x).2.parents.size = s.parents.size :=
  (s.find_spec x).2.2

/-! ## Joining -/

theorem parents_size_union (a b : Nat) : (s.union a b).parents.size = s.parents.size := by
  rw [union]
  dsimp only
  split
  · rw [parents_size_find, parents_size_find]
  · rw [parents_size_hang, parents_size_find, parents_size_find]

theorem root_union {a b : Nat} (ha : a < s.parents.size) (hb : b < s.parents.size) (y : Nat) :
    (s.union a b).root y =
      if s.root y = max (s.root a) (s.root b) then min (s.root a) (s.root b) else s.root y := by
  have hra := s.root_le a
  have hrb := s.root_le b
  rw [union]
  dsimp only
  simp only [find_eq_root, root_find]
  split
  · next heq =>
    rw [root_find, root_find, heq, Nat.max_self, Nat.min_self]
    split
    · next hy => exact hy
    · rfl
  · next hne =>
    have hmax : (((s.find a).2.find b).2).root (max (s.root a) (s.root b)) =
        max (s.root a) (s.root b) := by
      rw [root_find, root_find]
      rcases Nat.le_total (s.root a) (s.root b) with hle | hle
      · rw [Nat.max_eq_right hle, s.root_root]
      · rw [Nat.max_eq_left hle, s.root_root]
    have hmin : (((s.find a).2.find b).2).root (min (s.root a) (s.root b)) =
        min (s.root a) (s.root b) := by
      rw [root_find, root_find]
      rcases Nat.le_total (s.root a) (s.root b) with hle | hle
      · rw [Nat.min_eq_left hle, s.root_root]
      · rw [Nat.min_eq_right hle, s.root_root]
    rw [root_hang _ (by omega) (by rw [parents_size_find, parents_size_find]; omega)
      (Or.inl ?_), hmax, hmin, root_find, root_find]
    exact parent_eq_of_root_eq _ hmax

theorem root_union_of_eq {a b x y : Nat} (ha : a < s.parents.size) (hb : b < s.parents.size)
    (h : s.root x = s.root y) : (s.union a b).root x = (s.union a b).root y := by
  rw [s.root_union ha hb, s.root_union ha hb, h]

theorem root_union_self {a b : Nat} (ha : a < s.parents.size) (hb : b < s.parents.size) :
    (s.union a b).root a = (s.union a b).root b := by
  rw [s.root_union ha hb, s.root_union ha hb]
  split <;> split <;> omega

theorem rel_of_root_union {r : Nat → Nat → Prop} (hr : Equivalence r)
    (hs : ∀ x y, s.root x = s.root y → r x y) {a b x y : Nat} (ha : a < s.parents.size)
    (hb : b < s.parents.size) (hab : r a b) (h : (s.union a b).root x = (s.union a b).root y) :
    r x y := by
  have hroots : r (s.root a) (s.root b) :=
    hr.trans (hs _ _ (s.root_root a)) (hr.trans hab (hs _ _ (s.root_root b).symm))
  -- a number is related to the root it has after the union
  have hmoved : ∀ z, r z ((s.union a b).root z) := by
    intro z
    have hz : r z (s.root z) := hs _ _ (s.root_root z).symm
    rw [s.root_union ha hb]
    split
    · next hmax =>
      rcases Nat.le_total (s.root a) (s.root b) with hle | hle
      · rw [Nat.max_eq_right hle] at hmax
        rw [Nat.min_eq_left hle]
        exact hr.trans (hmax ▸ hz) (hr.symm hroots)
      · rw [Nat.max_eq_left hle] at hmax
        rw [Nat.min_eq_right hle]
        exact hr.trans (hmax ▸ hz) hroots
    · exact hz
  exact hr.trans (hmoved x) (hr.symm (h ▸ hmoved y))

/-! ## Many unions -/

/-- The sets after the unions of pairs. -/
def unions (s : DisjointSet) (pairs : List (Nat × Nat)) : DisjointSet :=
  pairs.foldl (fun s p => s.union p.1 p.2) s

/-- Whether both numbers of all pairs lie below a bound. -/
def InRange (count : Nat) (pairs : List (Nat × Nat)) : Prop :=
  ∀ p ∈ pairs, p.1 < count ∧ p.2 < count

variable {pairs : List (Nat × Nat)}

theorem root_unions_of_eq (hpairs : InRange s.parents.size pairs) {x y : Nat}
    (h : s.root x = s.root y) : (s.unions pairs).root x = (s.unions pairs).root y := by
  induction pairs generalizing s with
  | nil => exact h
  | cons p rest ih =>
    obtain ⟨ha, hb⟩ := hpairs p List.mem_cons_self
    refine ih (s.union p.1 p.2) ?_ (s.root_union_of_eq ha hb h)
    rw [parents_size_union]
    exact fun q hq => hpairs q (List.mem_cons_of_mem _ hq)

theorem root_unions_of_mem (hpairs : InRange s.parents.size pairs) {p : Nat × Nat}
    (hp : p ∈ pairs) : (s.unions pairs).root p.1 = (s.unions pairs).root p.2 := by
  induction pairs generalizing s with
  | nil => cases hp
  | cons q rest ih =>
    obtain ⟨ha, hb⟩ := hpairs q List.mem_cons_self
    have hrest : InRange (s.union q.1 q.2).parents.size rest := by
      rw [parents_size_union]
      exact fun x hx => hpairs x (List.mem_cons_of_mem _ hx)
    rcases List.mem_cons.1 hp with rfl | hp
    · exact root_unions_of_eq _ hrest (s.root_union_self ha hb)
    · exact ih _ hrest hp

theorem rel_of_root_unions {r : Nat → Nat → Prop} (hr : Equivalence r)
    (hs : ∀ x y, s.root x = s.root y → r x y) (hpairs : InRange s.parents.size pairs)
    (hrel : ∀ p ∈ pairs, r p.1 p.2) {x y : Nat}
    (h : (s.unions pairs).root x = (s.unions pairs).root y) : r x y := by
  induction pairs generalizing s with
  | nil => exact hs x y h
  | cons p rest ih =>
    obtain ⟨ha, hb⟩ := hpairs p List.mem_cons_self
    refine ih (s.union p.1 p.2) (fun u v => ?_) ?_ (fun q hq => hrel q (List.mem_cons_of_mem _ hq))
      h
    · exact s.rel_of_root_union hr hs ha hb (hrel p List.mem_cons_self)
    · rw [parents_size_union]
      exact fun q hq => hpairs q (List.mem_cons_of_mem _ hq)

theorem root_singletons (count x : Nat) : (singletons count).root x = x := by
  refine root_of_parent_eq _ ?_
  by_cases h : x < count
  · simp [parent, singletons, h]
  · simp [parent, singletons, h]

/-- After unions from singletons, two numbers share a root exactly if the pairs connect them. -/
theorem root_eq_iff {count : Nat} (hpairs : InRange count pairs) (x y : Nat) :
    ((singletons count).unions pairs).root x = ((singletons count).unions pairs).root y ↔
      Relation.EqvGen (fun a b => (a, b) ∈ pairs) x y := by
  have hrange : InRange (singletons count).parents.size pairs := by
    rwa [singletons, Array.size_range]
  constructor
  · refine rel_of_root_unions _ (Relation.EqvGen.is_equivalence _) (fun u v huv => ?_) hrange
      (fun p hp => .rel _ _ hp)
    rw [root_singletons, root_singletons] at huv
    exact huv ▸ .refl _
  · intro h
    induction h with
    | rel a b hab => exact root_unions_of_mem _ hrange hab
    | refl a => rfl
    | symm a b _ ih => exact ih.symm
    | trans a b c _ _ ih ih' => exact ih.trans ih'

end PriceAction.DisjointSet
