import PriceAction.Structure.Leg

/-!
# Legs follow one another

Reducing swings to pivots only drops swings (`alternate_sublist`). So on swings in the order of
their bars each leg starts no earlier than the legs before it stop (`Leg.pairwise_ofSwings`).
-/

namespace PriceAction

variable {α : Type} [Scalar α]

theorem addPivot_sublist (pivots : List (Swing α)) (s : Swing α) :
    (addPivot pivots s).Sublist (s :: pivots) := by
  cases pivots with
  | nil => exact List.Sublist.refl _
  | cons last earlier =>
    rw [addPivot]
    split
    · split
      · exact (List.sublist_cons_self last earlier).cons_cons s
      · exact List.sublist_cons_self s _
    · exact List.Sublist.refl _

theorem foldl_addPivot_sublist (swings pivots : List (Swing α)) :
    (swings.foldl addPivot pivots).Sublist (swings.reverse ++ pivots) := by
  induction swings generalizing pivots with
  | nil => exact List.Sublist.refl _
  | cons s rest ih =>
    rw [List.foldl_cons, List.reverse_cons, List.append_assoc]
    exact (ih (addPivot pivots s)).trans ((addPivot_sublist pivots s).append_left rest.reverse)

theorem alternate_sublist (swings : List (Swing α)) : (alternate swings).Sublist swings := by
  have h := (foldl_addPivot_sublist swings []).reverse
  simpa [alternate] using h

namespace Leg

theorem start_mem_of_mem {prior? : Option (Swing α)} {pivots : List (Swing α)} {leg : Leg α}
    (h : leg ∈ legsAlong prior? pivots) : leg.start ∈ pivots := by
  fun_induction legsAlong prior? pivots with
  | case1 prior? a b rest ih =>
    rcases List.mem_cons.1 h with rfl | htail
    · exact List.mem_cons_self
    · exact List.mem_cons_of_mem a (ih htail)
  | case2 => cases h

theorem pairwise_legsAlong (prior? : Option (Swing α)) {pivots : List (Swing α)}
    (h : pivots.Pairwise fun a b => a.index ≤ b.index) :
    (legsAlong prior? pivots).Pairwise fun a b => a.stop.index ≤ b.start.index := by
  fun_induction legsAlong prior? pivots with
  | case1 prior? a b rest ih =>
    have htail := (List.pairwise_cons.1 h).2
    refine List.pairwise_cons.2 ⟨fun leg hleg => ?_, ih htail⟩
    rcases List.mem_cons.1 (start_mem_of_mem hleg) with hstart | hstart
    · exact Nat.le_of_eq (congrArg Swing.index hstart.symm)
    · exact (List.pairwise_cons.1 htail).1 leg.start hstart
  | case2 => exact List.Pairwise.nil

theorem pairwise_ofSwings {swings : List (Swing α)}
    (h : swings.Pairwise fun a b => a.index ≤ b.index) :
    (ofSwings swings).Pairwise fun a b => a.stop.index ≤ b.start.index :=
  pairwise_legsAlong none (h.sublist (alternate_sublist swings))

omit [Scalar α] in
theorem eq_of_between {legs : List (Leg α)}
    (h : legs.Pairwise fun a b => a.stop.index ≤ b.start.index) {i j bar : Nat} {a b : Leg α}
    (hi : legs[i]? = some a) (ha : a.start.index < bar ∧ bar ≤ a.stop.index)
    (hj : legs[j]? = some b) (hb : b.start.index < bar ∧ bar ≤ b.stop.index) : i = j := by
  rw [List.pairwise_iff_getElem] at h
  obtain ⟨hi', rfl⟩ := List.getElem?_eq_some_iff.1 hi
  obtain ⟨hj', rfl⟩ := List.getElem?_eq_some_iff.1 hj
  rcases Nat.lt_trichotomy i j with hlt | heq | hgt
  · have := h i j hi' hj' hlt
    omega
  · exact heq
  · have := h j i hj' hi' hgt
    omega

end Leg

end PriceAction
