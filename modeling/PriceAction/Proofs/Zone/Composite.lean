import PriceAction.Proofs.Calendar.Order
import PriceAction.Proofs.Scalar.Rational
import PriceAction.Proofs.Selection
import PriceAction.Zone.Confluence

/-!
# What a point of interest says of its members

A point of interest spans its members, names each of them once, and is as strong as the strongest,
but never weaker than zero (`comprises_ofGroup`). Nothing else of it depends on the order in which
the members are given (`sameApartFromOrder_ofGroup`).
-/

namespace PriceAction.Zone

/-! ## Age -/

section Age

variable {α : Type} {a b c : Zone α}

theorem asYoungAs_iff :
    asYoungAs a b = true ↔ b.originIndex < a.originIndex ∨
      b.originIndex = a.originIndex ∧ b.originTime ≤ a.originTime := by
  simp [asYoungAs]

theorem asYoungAs_trans (a b c : Zone α) (hab : asYoungAs a b = true) (hbc : asYoungAs b c = true) :
    asYoungAs a c = true := by
  rw [asYoungAs_iff] at *
  rcases hab with hlt | ⟨heq, hle⟩ <;> rcases hbc with hlt' | ⟨heq', hle'⟩
  · exact Or.inl (hlt'.trans hlt)
  · exact Or.inl (heq'.trans_lt hlt)
  · exact Or.inl (hlt'.trans_eq heq)
  · exact Or.inr ⟨heq'.trans heq, hle'.trans hle⟩

theorem asYoungAs_total (a b : Zone α) : (asYoungAs a b || asYoungAs b a) = true := by
  rw [Bool.or_eq_true, asYoungAs_iff, asYoungAs_iff]
  rcases lt_trichotomy a.originIndex b.originIndex with hlt | heq | hgt
  · exact Or.inr (Or.inl hlt)
  · exact (le_total b.originTime a.originTime).imp (fun h => Or.inr ⟨heq.symm, h⟩)
      fun h => Or.inr ⟨heq, h⟩
  · exact Or.inl (Or.inl hgt)

theorem origin_eq_of_choose? {xs ys : List (Zone α)} (hperm : xs.Perm ys)
    (ha : choose? asYoungAs xs = some a) (hb : choose? asYoungAs ys = some b) :
    a.originIndex = b.originIndex ∧ a.originTime = b.originTime := by
  obtain ⟨hmem, hall⟩ := choose?_spec asYoungAs_trans asYoungAs_total ha
  obtain ⟨hmem', hall'⟩ := choose?_spec asYoungAs_trans asYoungAs_total hb
  have hab := asYoungAs_iff.1 (hall b (hperm.mem_iff.2 hmem'))
  have hba := asYoungAs_iff.1 (hall' a (hperm.mem_iff.1 hmem))
  rcases hab with hlt | ⟨heq, hle⟩ <;> rcases hba with hlt' | ⟨heq', hle'⟩
  · omega
  · omega
  · omega
  · exact ⟨heq', le_antisymm hle' hle⟩

end Age

/-! ## Members -/

/-- What a point of interest says of its members. -/
structure Comprises (z : Zone Rat) (members : List (Zone Rat)) : Prop where
  provenance : z.provenance.Perm (members.map fun m => .zone m.id m.kind)
  low : IsLeast {x | ∃ m ∈ members, m.low = x} z.low
  high : IsGreatest {x | ∃ m ∈ members, m.high = x} z.high
  strength : IsGreatest {x | x = 0 ∨ ∃ m ∈ members, m.strength = x} z.strength

/-- Whether two points of interest are equal, except that they may name their members in different
orders. -/
def SameApartFromOrder (z z' : Zone Rat) : Prop :=
  { z with provenance := [] } = { z' with provenance := [] } ∧ z.provenance.Perm z'.provenance

variable {view : ZoneView Rat} {d : Direction} {group : List (Zone Rat)} {z : Zone Rat}

theorem ofGroup?_isSome (h : group ≠ []) : (ofGroup? view d group).isSome = true := by
  rw [ofGroup?, Option.isSome_map, Option.isSome_iff_ne_none, ne_eq, choose?_eq_none]
  exact h

theorem direction_ofGroup (h : ofGroup? view d group = some z) : z.direction = d := by
  obtain ⟨youngest, -, rfl⟩ := Option.map_eq_some_iff.1 h
  rfl

theorem comprises_ofGroup (h : ofGroup? view d group = some z) : z.Comprises group := by
  obtain ⟨youngest, hyoungest, rfl⟩ := Option.map_eq_some_iff.1 h
  have hne : group ≠ [] := by
    rintro rfl
    cases hyoungest
  have hmap : ∀ f : Zone Rat → Rat, group.map f ≠ [] := fun f => by simpa using hne
  constructor
  · exact List.Perm.refl _
  · have hlow := Scalar.isLeast_least (hmap (·.low))
    simp only [List.mem_map] at hlow
    exact hlow
  · have hhigh := Scalar.isGreatest_greatest (hmap (·.high))
    simp only [List.mem_map] at hhigh
    exact hhigh
  · have hstrength := Scalar.isGreatest_foldl_max 0.0 (group.map (·.strength))
    simp only [List.mem_cons, List.mem_map, Scalar.zero_eq] at hstrength
    show IsGreatest _ ((group.map (·.strength)).foldl Scalar.max 0.0)
    rw [Scalar.zero_eq]
    exact hstrength

theorem Comprises.congr {ms ms' : List (Zone Rat)} (h : z.Comprises ms) (hperm : ms.Perm ms') :
    z.Comprises ms' := by
  obtain ⟨hprovenance, hlow, hhigh, hstrength⟩ := h
  simp only [hperm.mem_iff] at hlow hhigh hstrength
  exact ⟨hprovenance.trans (hperm.map _), hlow, hhigh, hstrength⟩

theorem mergeSort_texts_eq {xs ys : List String} (h : xs.Perm ys) :
    (xs.mergeSort fun a b => decide (a ≤ b)) = ys.mergeSort fun a b => decide (a ≤ b) := by
  have htrans : ∀ a b c : String, decide (a ≤ b) = true → decide (b ≤ c) = true →
      decide (a ≤ c) = true := fun a b c hab hbc =>
    decide_eq_true (String.le_trans (of_decide_eq_true hab) (of_decide_eq_true hbc))
  have htotal : ∀ a b : String, (decide (a ≤ b) || decide (b ≤ a)) = true := fun a b => by
    simpa using String.le_total a b
  refine List.Perm.eq_of_pairwise (fun a b _ _ hab hba => ?_)
    (List.pairwise_mergeSort htrans htotal xs) (List.pairwise_mergeSort htrans htotal ys)
    ((List.mergeSort_perm xs _).trans (h.trans (List.mergeSort_perm ys _).symm))
  exact String.le_antisymm (of_decide_eq_true hab) (of_decide_eq_true hba)

theorem sameApartFromOrder_ofGroup {group' : List (Zone Rat)} {z' : Zone Rat}
    (hperm : group.Perm group') (h : ofGroup? view d group = some z)
    (h' : ofGroup? view d group' = some z') : z.SameApartFromOrder z' := by
  have hz := (comprises_ofGroup h).congr hperm
  have hz' := comprises_ofGroup h'
  have hlow := hz.low.unique hz'.low
  have hhigh := hz.high.unique hz'.high
  have hstrength := hz.strength.unique hz'.strength
  refine ⟨?_, hz.provenance.trans hz'.provenance.symm⟩
  obtain ⟨youngest, hyoungest, rfl⟩ := Option.map_eq_some_iff.1 h
  obtain ⟨youngest', hyoungest', rfl⟩ := Option.map_eq_some_iff.1 h'
  obtain ⟨hindex, htime⟩ := origin_eq_of_choose? hperm hyoungest hyoungest'
  have htexts := mergeSort_texts_eq (hperm.map (·.id.text))
  have hactive : group.any (·.status = .active) = group'.any (·.status = .active) :=
    hperm.any_eq
  dsimp only at hlow hhigh hstrength ⊢
  rw [hlow, hhigh, hstrength, hindex, htime, htexts, hactive]

end PriceAction.Zone
