import PriceAction.Proofs.Scalar.Lawful

/-!
# Stable sorting

A stable sort can be cut down to a part of its list: sorting the part gives the part of the sorted
list (`filter_mergeSort`). Comparisons that `Std.TransCmp` describes may be sorted by.
-/

namespace PriceAction

variable {β : Type}

section

variable {le : β → β → Bool} (htrans : ∀ a b c, le a b = true → le b c = true → le a c = true)
  (htotal : ∀ a b, (le a b || le b a) = true)

theorem append_inj_of_begins {q : β → Prop} {xs xs' ys ys' : List β} (h : xs ++ ys = xs' ++ ys')
    (hxs : ∀ x ∈ xs, ¬q x) (hxs' : ∀ x ∈ xs', ¬q x) (hys : ∀ y ∈ ys, q y)
    (hys' : ∀ y ∈ ys', q y) : xs = xs' ∧ ys = ys' := by
  rcases List.append_eq_append_iff.1 h with ⟨between, rfl, rfl⟩ | ⟨between, rfl, rfl⟩
  · cases between with
    | nil => simp
    | cons x rest => exact absurd (hys x (by simp)) (hxs' x (by simp))
  · cases between with
    | nil => simp
    | cons x rest => exact absurd (hys' x (by simp)) (hxs x (by simp))

include htrans htotal

theorem filter_mergeSort (p : β → Bool) (xs : List β) :
    (xs.mergeSort le).filter p = (xs.filter p).mergeSort le := by
  induction xs with
  | nil => simp
  | cons x rest ih =>
    obtain ⟨before, after, hsort, hrest, hbefore⟩ := List.mergeSort_cons htrans htotal x rest
    rw [hrest, List.filter_append] at ih
    rw [hsort, List.filter_append]
    by_cases hx : p x = true
    · -- the element goes to the same place in the part: behind all that it does not precede
      obtain ⟨before', after', hsort', hrest', hbefore'⟩ :=
        List.mergeSort_cons htrans htotal x (rest.filter p)
      have hafter : ∀ y ∈ after, le x y = true := by
        have h := List.pairwise_mergeSort htrans htotal (x :: rest)
        rw [hsort, List.pairwise_append] at h
        exact (List.pairwise_cons.1 h.2.1).1
      have hafter' : ∀ y ∈ after', le x y = true := by
        have h := List.pairwise_mergeSort htrans htotal (x :: rest.filter p)
        rw [hsort', List.pairwise_append] at h
        exact (List.pairwise_cons.1 h.2.1).1
      obtain ⟨hfront, hback⟩ := append_inj_of_begins (q := fun y => le x y = true)
        (ih.trans hrest') (fun y hy => by simpa using hbefore y ((List.mem_filter.1 hy).1))
        (fun y hy => by simpa using hbefore' y hy)
        (fun y hy => hafter y ((List.mem_filter.1 hy).1)) hafter'
      rw [List.filter_cons_of_pos hx, List.filter_cons_of_pos hx, hsort', hfront, hback]
    · rw [List.filter_cons_of_neg hx, List.filter_cons_of_neg hx, ih]

end

section

variable {cmp : β → β → Ordering} [Std.TransCmp cmp]

theorem isLE_trans (a b c : β) (hab : (cmp a b).isLE = true) (hbc : (cmp b c).isLE = true) :
    (cmp a c).isLE = true :=
  Std.TransCmp.isLE_trans hab hbc

theorem isLE_total (a b : β) : ((cmp a b).isLE || (cmp b a).isLE) = true := by
  rw [@Std.OrientedCmp.eq_swap _ cmp _ b a]
  cases cmp a b <;> rfl

end

theorem transCmp_on {γ : Type} (cmp : γ → γ → Ordering) [Std.TransCmp cmp] (f : β → γ) :
    Std.TransCmp fun a b => cmp (f a) (f b) where
  eq_swap := Std.OrientedCmp.eq_swap
  isLE_trans := Std.TransCmp.isLE_trans

end PriceAction
