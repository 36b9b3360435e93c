import Mathlib.Combinatorics.SimpleGraph.Connectivity.Connected
import Mathlib.Tactic.Linarith
import PriceAction.Proofs.Scalar.Rational
import PriceAction.Proofs.Zone.Groups

/-!
# The sweep misses no pair

In the order of bands the search for links ends at the first band that is too far above; all bands
after it start higher still (`linked_eq_filter`). So two zones share a root exactly if a chain of
zones that belong together leads from one to the other (`root_joined_iff`).
-/

namespace PriceAction.Zone

variable {settings : ConfluenceSettings Rat} {volatility : Rat}

/-! ## Belonging together -/

/-- Whether two zones cover the same band. -/
def SameBand (a b : Zone Rat) : Prop :=
  a.low = b.low ∧ a.high = b.high

theorem belongsWith_comm (a b : Zone Rat) :
    belongsWith settings volatility a b = belongsWith settings volatility b a := by
  simp only [belongsWith, Scalar.max_eq, Scalar.min_eq]
  rw [max_comm a.low, min_comm a.high, min_comm a.span]

theorem belongsWith_congr {a a' b b' : Zone Rat} (ha : a.SameBand a') (hb : b.SameBand b') :
    belongsWith settings volatility a b = belongsWith settings volatility a' b' := by
  cases a
  cases a'
  cases b
  cases b'
  obtain ⟨rfl, rfl⟩ := ha
  obtain ⟨rfl, rfl⟩ := hb
  rfl

theorem belongsWith_of_sameBand (hshare : settings.overlapShare ≤ 1) {a b : Zone Rat}
    (h : a.SameBand b) (hband : a.low ≤ a.high) : belongsWith settings volatility a b = true := by
  have hself : belongsWith settings volatility a b = belongsWith settings volatility a a :=
    belongsWith_congr ⟨rfl, rfl⟩ ⟨h.1.symm, h.2.symm⟩
  rw [hself]
  simp only [belongsWith, Scalar.max_eq, Scalar.min_eq, Scalar.zero_eq, span, max_self, min_self]
  rw [if_neg (by show ¬(0 : Rat) < a.low - a.high; linarith)]
  split
  · rfl
  · next hspan =>
    have hpos : 0 < a.high - a.low := not_le.1 hspan
    have hwhole : -(a.low - a.high) / (a.high - a.low) = 1 := by
      rw [neg_sub, div_self (ne_of_gt hpos)]
    exact decide_eq_true (hshare.trans_eq hwhole.symm)

theorem not_belongsWith_of_far (hreach : 0 ≤ settings.gapVolatilities * volatility)
    {a b : Zone Rat} (hlow : a.low ≤ b.low)
    (hfar : settings.gapVolatilities * volatility < b.low - a.high) :
    belongsWith settings volatility a b = false := by
  have hgap : b.low - a.high ≤ max a.low b.low - min a.high b.high := by
    rw [max_eq_right hlow]
    exact sub_le_sub_left (min_le_left _ _) _
  simp only [belongsWith, Scalar.max_eq, Scalar.min_eq, Scalar.zero_eq]
  rw [if_pos (lt_of_le_of_lt hreach (hfar.trans_le hgap))]
  exact decide_eq_false (not_le.2 (hfar.trans_le hgap))

/-! ## The order of bands -/

theorem bandNotAfter_iff {a b : Zone Rat} :
    bandNotAfter a b = true ↔ a.low < b.low ∨ a.low = b.low ∧ a.high ≤ b.high := by
  rw [bandNotAfter, Scalar.order_eq, Scalar.order_eq]
  rcases lt_trichotomy a.low b.low with hlt | heq | hgt
  · simp [hlt]
  · rcases lt_trichotomy a.high b.high with hlt' | heq' | hgt'
    · simp [heq, hlt', le_of_lt hlt']
    · simp [heq, heq']
    · simp [heq, hgt', not_lt_of_gt hgt', not_le.2 hgt']
  · simp [hgt, not_lt_of_gt hgt, ne_of_gt hgt]

theorem low_le_of_bandNotAfter {a b : Zone Rat} (h : bandNotAfter a b = true) : a.low ≤ b.low := by
  rcases bandNotAfter_iff.1 h with hlt | ⟨heq, -⟩
  · exact le_of_lt hlt
  · exact le_of_eq heq

theorem bandNotAfter_trans (a b c : Zone Rat) (hab : bandNotAfter a b = true)
    (hbc : bandNotAfter b c = true) : bandNotAfter a c = true := by
  rw [bandNotAfter_iff] at *
  rcases hab with hlt | ⟨heq, hle⟩ <;> rcases hbc with hlt' | ⟨heq', hle'⟩
  · exact Or.inl (hlt.trans hlt')
  · exact Or.inl (hlt.trans_eq heq')
  · exact Or.inl (heq.trans_lt hlt')
  · exact Or.inr ⟨heq.trans heq', hle.trans hle'⟩

theorem bandNotAfter_total (a b : Zone Rat) : (bandNotAfter a b || bandNotAfter b a) = true := by
  rw [Bool.or_eq_true, bandNotAfter_iff, bandNotAfter_iff]
  rcases lt_trichotomy a.low b.low with hlt | heq | hgt
  · exact Or.inl (Or.inl hlt)
  · exact (le_total a.high b.high).imp (fun h => Or.inr ⟨heq, h⟩) fun h => Or.inr ⟨heq.symm, h⟩
  · exact Or.inr (Or.inl hgt)

/-- Whether zones are listed from below by their lower edges. -/
def Ascending (zones : List (Zone Rat)) : Prop :=
  zones.Pairwise fun a b => a.low ≤ b.low

theorem ascending_members (d : Direction) (prior : List (Zone Rat)) :
    Ascending (members d prior) :=
  (List.pairwise_mergeSort bandNotAfter_trans bandNotAfter_total _).imp low_le_of_bandNotAfter

/-! ## Links -/

/-- The early end of the search loses no link. -/
theorem linked_eq_filter (hreach : 0 ≤ settings.gapVolatilities * volatility) (z : Zone Rat)
    {rest : List (Placed Rat)} (hz : ∀ x ∈ rest, z.low ≤ x.1.low)
    (hrest : rest.Pairwise fun x y => x.1.low ≤ y.1.low) :
    linked settings volatility z rest =
      rest.filter fun x => belongsWith settings volatility z x.1 := by
  induction rest with
  | nil => rfl
  | cons x rest ih =>
    obtain ⟨hx, hrest⟩ := List.pairwise_cons.1 hrest
    rw [linked, List.takeWhile_cons]
    split
    · have htail := ih (fun y hy => hz y (List.mem_cons_of_mem _ hy)) hrest
      rw [linked] at htail
      rw [List.filter_cons, List.filter_cons, htail]
    · next hfar =>
      have hreached : settings.gapVolatilities * volatility < x.1.low - z.high := by
        rwa [Bool.not_eq_true, Bool.not_eq_false', decide_eq_true_iff] at hfar
      have hnone : ∀ y ∈ x :: rest, ¬belongsWith settings volatility z y.1 = true := by
        intro y hy
        have hlow : x.1.low ≤ y.1.low := by
          rcases List.mem_cons.1 hy with rfl | hy
          · exact le_refl _
          · exact hx y hy
        rw [not_belongsWith_of_far hreach (hz y hy) (by linarith)]
        exact Bool.false_ne_true
      rw [List.filter_eq_nil_iff.2 hnone]
      rfl

/-- The pairs that are joined are all that belong together. -/
theorem mem_linkedPairs_zipIdx (hreach : 0 ≤ settings.gapVolatilities * volatility)
    {zones : List (Zone Rat)} (h : Ascending zones) (k i j : Nat) :
    (i, j) ∈ linkedPairs settings volatility (zones.zipIdx k) ↔
      k ≤ i ∧ i < j ∧ ∃ a b, zones[i - k]? = some a ∧ zones[j - k]? = some b ∧
        belongsWith settings volatility a b = true := by
  induction zones generalizing k with
  | nil => simp [linkedPairs]
  | cons z rest ih =>
    obtain ⟨hz, hrest⟩ := List.pairwise_cons.1 h
    have hlow : ∀ x ∈ rest.zipIdx (k + 1), z.low ≤ x.1.low := fun x hx =>
      hz x.1 (List.fst_mem_of_mem_zipIdx hx)
    have hplaced : (rest.zipIdx (k + 1)).Pairwise fun x y => x.1.low ≤ y.1.low := by
      rw [← List.zipIdx_map_fst (k + 1) rest, List.pairwise_map] at hrest
      exact hrest
    have hshift : ∀ n, k < n → (z :: rest)[n - k]? = rest[n - (k + 1)]? := by
      intro n hn
      rw [show n - k = n - (k + 1) + 1 by omega, List.getElem?_cons_succ]
    rw [List.zipIdx_cons, linkedPairs, List.mem_append, linked_eq_filter hreach z hlow hplaced,
      ih hrest]
    constructor
    · rintro (hfirst | ⟨hk, hij, a, b, ha, hb, hab⟩)
      · obtain ⟨⟨b, n⟩, hmem, heq⟩ := List.mem_map.1 hfirst
        obtain ⟨hmem, hab⟩ := List.mem_filter.1 hmem
        obtain ⟨hlt, hb⟩ := List.mk_mem_zipIdx_iff_le_and_getElem?_sub.1 hmem
        cases heq
        refine ⟨le_refl k, hlt, z, b, by rw [Nat.sub_self, List.getElem?_cons_zero], ?_, hab⟩
        rw [hshift n hlt, hb]
      · refine ⟨by omega, hij, a, b, ?_, ?_, hab⟩
        · rw [hshift i (by omega), ha]
        · rw [hshift j (by omega), hb]
    · rintro ⟨hk, hij, a, b, ha, hb, hab⟩
      rcases eq_or_lt_of_le hk with rfl | hlt
      · rw [Nat.sub_self, List.getElem?_cons_zero] at ha
        cases ha
        rw [hshift j hij] at hb
        have hmem : (b, j) ∈ rest.zipIdx (k + 1) :=
          List.mk_mem_zipIdx_iff_le_and_getElem?_sub.2 ⟨hij, hb⟩
        exact Or.inl (List.mem_map.2 ⟨(b, j), List.mem_filter.2 ⟨hmem, hab⟩, rfl⟩)
      · rw [hshift i hlt] at ha
        rw [hshift j (by omega)] at hb
        exact Or.inr ⟨hlt, hij, a, b, ha, hb, hab⟩

/-! ## Chains of zones -/

/-- The graph on the places of zones whose edges are all pairs that belong together. -/
def linkGraph (settings : ConfluenceSettings Rat) (volatility : Rat) (zones : List (Zone Rat)) :
    SimpleGraph (Fin zones.length) where
  Adj i j := i ≠ j ∧ belongsWith settings volatility zones[i] zones[j] = true
  symm := ⟨fun i j h => ⟨h.1.symm, by rw [belongsWith_comm]; exact h.2⟩⟩
  loopless := ⟨fun _ h => h.1 rfl⟩

variable {zones : List (Zone Rat)}

theorem mem_linkedPairs_iff (hreach : 0 ≤ settings.gapVolatilities * volatility)
    (h : Ascending zones) (p : Nat × Nat) :
    p ∈ linkedPairs settings volatility zones.zipIdx ↔
      ∃ i j : Fin zones.length, i < j ∧ (linkGraph settings volatility zones).Adj i j ∧
        p = (i.val, j.val) := by
  obtain ⟨m, n⟩ := p
  rw [mem_linkedPairs_zipIdx hreach h]
  simp only [Nat.sub_zero, List.getElem?_eq_some_iff]
  constructor
  · rintro ⟨-, hlt, a, b, ⟨hm, rfl⟩, ⟨hn, rfl⟩, hab⟩
    exact ⟨⟨m, hm⟩, ⟨n, hn⟩, hlt, ⟨Fin.ne_of_lt hlt, hab⟩, rfl⟩
  · rintro ⟨i, j, hlt, hadj, heq⟩
    cases heq
    exact ⟨Nat.zero_le _, hlt, _, _, ⟨i.isLt, rfl⟩, ⟨j.isLt, rfl⟩, hadj.2⟩

theorem inRange_linkedPairs (hreach : 0 ≤ settings.gapVolatilities * volatility)
    (h : Ascending zones) :
    DisjointSet.InRange zones.length (linkedPairs settings volatility zones.zipIdx) := by
  intro p hp
  obtain ⟨i, j, -, -, rfl⟩ := (mem_linkedPairs_iff hreach h p).1 hp
  exact ⟨i.isLt, j.isLt⟩

theorem reachable_of_eqvGen (hreach : 0 ≤ settings.gapVolatilities * volatility)
    (h : Ascending zones) {m n : Nat}
    (hmn : Relation.EqvGen (fun a b => (a, b) ∈ linkedPairs settings volatility zones.zipIdx) m n) :
    m = n ∨ ∃ i j : Fin zones.length, i.val = m ∧ j.val = n ∧
      (linkGraph settings volatility zones).Reachable i j := by
  induction hmn with
  | rel a b hab =>
    obtain ⟨i, j, -, hadj, heq⟩ := (mem_linkedPairs_iff hreach h _).1 hab
    cases heq
    exact Or.inr ⟨i, j, rfl, rfl, hadj.reachable⟩
  | refl a => exact Or.inl rfl
  | symm a b _ ih =>
    rcases ih with heq | ⟨i, j, hi, hj, hij⟩
    · exact Or.inl heq.symm
    · exact Or.inr ⟨j, i, hj, hi, hij.symm⟩
  | trans a b c _ _ ih ih' =>
    rcases ih with rfl | ⟨i, j, hi, hj, hij⟩
    · exact ih'
    · rcases ih' with rfl | ⟨j', l, hj', hl, hjl⟩
      · exact Or.inr ⟨i, j, hi, hj, hij⟩
      · have heq : j = j' := Fin.ext (hj.trans hj'.symm)
        subst heq
        exact Or.inr ⟨i, l, hi, hl, hij.trans hjl⟩

theorem root_joined_iff (hreach : 0 ≤ settings.gapVolatilities * volatility)
    (h : Ascending zones) (i j : Fin zones.length) :
    (joined settings volatility zones).root i = (joined settings volatility zones).root j ↔
      (linkGraph settings volatility zones).Reachable i j := by
  have hpairs := inRange_linkedPairs hreach h
  constructor
  · intro heq
    rcases reachable_of_eqvGen hreach h ((DisjointSet.root_eq_iff hpairs i j).1 heq) with
      hij | ⟨i', j', hi, hj, hij⟩
    · rw [Fin.ext hij]
    · rwa [Fin.ext hi, Fin.ext hj] at hij
  · rintro ⟨walk⟩
    induction walk with
    | nil => rfl
    | @cons u v w hadj _ ih =>
      refine Eq.trans ((DisjointSet.root_eq_iff hpairs u v).2 ?_) ih
      rcases lt_or_gt_of_ne hadj.1 with hlt | hgt
      · exact .rel _ _ ((mem_linkedPairs_iff hreach h _).2 ⟨u, v, hlt, hadj, rfl⟩)
      · exact .symm _ _ (.rel _ _ ((mem_linkedPairs_iff hreach h _).2 ⟨v, u, hgt, hadj.symm, rfl⟩))

end PriceAction.Zone
