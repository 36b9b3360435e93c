import Mathlib.Data.List.Forall2

/-!
# Searches in lists

What a search finds, in terms of the positions of a list (`find?_zipIdx_eq_some_iff`), and searches
that filter or translate what they find.
-/

namespace PriceAction

variable {β γ : Type}

/-! ## Searches and filters -/

theorem findSome?_ite (p : β → Bool) (f : β → Option γ) (xs : List β) :
    xs.findSome? (fun x => if p x then f x else none) = (xs.filter p).findSome? f := by
  induction xs with
  | nil => rfl
  | cons x rest ih =>
    rw [List.findSome?_cons, List.filter_cons, ih]
    by_cases hx : p x = true
    · rw [if_pos hx, if_pos hx, List.findSome?_cons]
    · rw [if_neg hx, if_neg hx]

theorem map_find?_eq_findSome? (p : β → Bool) (f : β → γ) (xs : List β) :
    (xs.find? p).map f = xs.findSome? fun x => if p x then some (f x) else none := by
  rw [findSome?_ite, ← List.head?_filter]
  cases xs.filter p <;> rfl

/-! ## Lists related element by element -/

theorem mapM_eq_map {step : β → Option γ} {f : β → γ} {xs : List β}
    (h : ∀ x ∈ xs, step x = some (f x)) : xs.mapM step = some (xs.map f) := by
  induction xs with
  | nil => rfl
  | cons x rest ih =>
    have hrest := ih fun y hy => h y (List.mem_cons_of_mem x hy)
    simp [List.mapM_cons, h x List.mem_cons_self, hrest]

theorem forall₂_filterMap {f : β → Option γ} {xs : List β} (h : ∀ x ∈ xs, (f x).isSome = true) :
    List.Forall₂ (fun x y => f x = some y) xs (xs.filterMap f) := by
  induction xs with
  | nil => exact .nil
  | cons x rest ih =>
    obtain ⟨y, hy⟩ := Option.isSome_iff_exists.1 (h x List.mem_cons_self)
    rw [List.filterMap_cons_some hy]
    exact .cons hy (ih fun z hz => h z (List.mem_cons_of_mem _ hz))

theorem exists_mem_of_forall₂ {R : β → γ → Prop} {xs : List β} {ys : List γ}
    (h : List.Forall₂ R xs ys) {y : γ} (hy : y ∈ ys) : ∃ x ∈ xs, R x y := by
  induction h with
  | nil => cases hy
  | @cons x y' xs ys hxy hrest ih =>
    rcases List.mem_cons.1 hy with rfl | hy
    · exact ⟨x, by simp, hxy⟩
    · obtain ⟨x', hx', hR⟩ := ih hy
      exact ⟨x', List.mem_cons_of_mem x hx', hR⟩

/-! ## Searches by position -/

variable {p : β → Bool} {xs : List β} {x : β} {first i : Nat}

theorem find?_zipIdx_eq_some_iff :
    ((xs.zipIdx first).find? fun (x, _) => p x) = some (x, i) ↔
      p x = true ∧ first ≤ i ∧ xs[i - first]? = some x ∧
        ∀ j y, first ≤ j → j < i → xs[j - first]? = some y → p y = false := by
  simp only [List.find?_eq_some_iff_getElem, List.getElem_zipIdx, Prod.mk.injEq, Bool.not_eq_true',
    List.length_zipIdx]
  refine and_congr_right fun _ => ⟨?_, ?_⟩
  · rintro ⟨n, hn, ⟨rfl, rfl⟩, hearlier⟩
    rw [Nat.add_sub_cancel_left]
    refine ⟨Nat.le_add_right first n, List.getElem?_eq_getElem hn, fun j y hj hlt hy => ?_⟩
    obtain ⟨-, rfl⟩ := List.getElem?_eq_some_iff.1 hy
    exact hearlier (j - first) (by omega)
  · rintro ⟨hle, hx, hearlier⟩
    obtain ⟨hn, rfl⟩ := List.getElem?_eq_some_iff.1 hx
    refine ⟨i - first, hn, ⟨rfl, Nat.add_sub_cancel' hle⟩, fun n hlt => ?_⟩
    refine hearlier (first + n) _ (Nat.le_add_right first n) (by omega) ?_
    rw [Nat.add_sub_cancel_left, List.getElem?_eq_getElem]

theorem find?_zipIdx_eq_none_iff :
    (xs.zipIdx.find? fun (x, _) => p x) = none ↔ ∀ x ∈ xs, p x = false := by
  rw [List.find?_eq_none]
  constructor
  · intro h x hx
    obtain ⟨i, hi⟩ := List.getElem?_of_mem hx
    exact Bool.eq_false_iff.2 (h (x, i) (List.mem_zipIdx_iff_getElem?.2 hi))
  · rintro h ⟨x, i⟩ hx
    exact Bool.eq_false_iff.1 (h x (List.mem_of_getElem? (List.mem_zipIdx_iff_getElem?.1 hx)))

/-! ## Windows of positions -/

theorem mem_take_iff_getElem? {k : Nat} : x ∈ xs.take k ↔ ∃ n, n < k ∧ xs[n]? = some x := by
  simp only [List.mem_iff_getElem?, List.getElem?_take, Option.ite_none_right_eq_some]

theorem mem_drop_take_zipIdx {start stop : Nat} :
    (x, i) ∈ (xs.zipIdx.take stop).drop start ↔ start ≤ i ∧ i < stop ∧ xs[i]? = some x := by
  simp only [List.mem_iff_getElem?, List.getElem?_drop, List.getElem?_take, List.getElem?_zipIdx,
    Option.ite_none_right_eq_some, Option.map_eq_some_iff, Prod.mk.injEq]
  constructor
  · rintro ⟨n, hn, y, hy, rfl, rfl⟩
    exact ⟨by omega, by omega, by simpa using hy⟩
  · rintro ⟨hle, hlt, hx⟩
    exact ⟨i - start, by omega, x, by rwa [Nat.add_sub_cancel' hle], rfl, by omega⟩

theorem mem_drop_zipIdx {start : Nat} :
    (x, i) ∈ xs.zipIdx.drop start ↔ start ≤ i ∧ xs[i]? = some x := by
  rw [← List.take_of_length_le (Nat.le_of_eq List.length_zipIdx : xs.zipIdx.length ≤ xs.length),
    mem_drop_take_zipIdx]
  refine and_congr_right fun _ => and_iff_right_of_imp fun h => ?_
  exact (List.getElem?_eq_some_iff.1 h).1

theorem pairwise_lt_zipIdx (xs : List β) (k : Nat) :
    (xs.zipIdx k).Pairwise fun a b => a.2 < b.2 := by
  rw [← List.pairwise_map (f := Prod.snd), List.zipIdx_map_snd]
  exact List.pairwise_lt_range'

theorem pairwise_zipIdx (xs : List β) (k : Nat) : (xs.zipIdx k).Pairwise fun a b => a.2 ≤ b.2 :=
  (pairwise_lt_zipIdx xs k).imp Nat.le_of_lt

/-- The positions from a number on are a stretch at the end of the list. -/
theorem drop_zipIdx_eq_filter (xs : List β) (start : Nat) :
    xs.zipIdx.drop start = xs.zipIdx.filter fun x => decide (start ≤ x.2) := by
  have hbefore : (xs.zipIdx.take start).filter (fun x => decide (start ≤ x.2)) = [] := by
    rw [List.filter_eq_nil_iff]
    rintro ⟨x, i⟩ hx
    have hx' : (x, i) ∈ (xs.zipIdx.take start).drop 0 := by rwa [List.drop_zero]
    have hi := (mem_drop_take_zipIdx.1 hx').2.1
    simpa using hi
  have hafter : (xs.zipIdx.drop start).filter (fun x => decide (start ≤ x.2)) =
      xs.zipIdx.drop start := by
    rw [List.filter_eq_self]
    rintro ⟨x, i⟩ hx
    exact decide_eq_true (mem_drop_zipIdx.1 hx).1
  rw [← List.nil_append (xs.zipIdx.drop start), ← hbefore, ← hafter, ← List.filter_append,
    List.take_append_drop]

/-- A search through a window from its end finds the last position in it that has the property. -/
theorem of_find?_reverse_eq_some {start stop : Nat}
    (h : (((xs.zipIdx.take stop).drop start).reverse.find? fun (x, _) => p x) = some (x, i)) :
    start ≤ i ∧ i < stop ∧ xs[i]? = some x ∧ p x = true ∧
      ∀ j y, i < j → j < stop → xs[j]? = some y → p y = false := by
  obtain ⟨hx, later, earlier, hsplit, hlater⟩ := List.find?_eq_some_iff_append.1 h
  obtain ⟨hle, hlt, hget⟩ := mem_drop_take_zipIdx.1
    (List.mem_reverse.1 (List.mem_of_find?_eq_some h))
  refine ⟨hle, hlt, hget, hx, fun j y hij hj hy => ?_⟩
  have hmem : (y, j) ∈ later ++ (x, i) :: earlier := by
    rw [← hsplit]
    exact List.mem_reverse.2 (mem_drop_take_zipIdx.2 ⟨by omega, hj, hy⟩)
  have hordered : (later ++ (x, i) :: earlier).Pairwise fun a b => b.2 ≤ a.2 := by
    rw [← hsplit, List.pairwise_reverse]
    exact (pairwise_zipIdx xs 0).sublist ((List.drop_sublist ..).trans (List.take_sublist ..))
  rcases List.mem_append.1 hmem with hbefore | hrest
  · simpa using hlater _ hbefore
  · rcases List.mem_cons.1 hrest with heq | hafter
    · cases heq
      exact absurd hij (Nat.lt_irrefl i)
    · have := (List.pairwise_cons.1 (List.pairwise_append.1 hordered).2.1).1 _ hafter
      dsimp only at this
      omega

end PriceAction
