import Mathlib.Data.List.Induction

/-!
# The latest element with a property

A search from the end of a list finds the latest element with a property
(`find?_reverse_eq_some_iff`), or the latest that is not before a given position
(`findSome?_reverse_drop_eq_some_iff`).
-/

namespace PriceAction

variable {β γ : Type} {p : β → Prop} {xs : List β} {i : Nat} {x : β}

/-- The latest element of a list with a property, and its position. -/
structure Latest (p : β → Prop) (xs : List β) (i : Nat) (x : β) : Prop where
  at_index : xs[i]? = some x
  holds : p x
  latest : ∀ j y, i < j → xs[j]? = some y → ¬p y

theorem Latest.lt_length (h : Latest p xs i x) : i < xs.length :=
  (List.getElem?_eq_some_iff.1 h.at_index).1

theorem Latest.unique {j : Nat} {y : β} (h : Latest p xs i x) (h' : Latest p xs j y) :
    i = j ∧ x = y := by
  have hij : i = j := by
    rcases Nat.lt_trichotomy i j with hlt | heq | hgt
    · exact absurd h'.holds (h.latest j y hlt h'.at_index)
    · exact heq
    · exact absurd h.holds (h'.latest i x hgt h.at_index)
  subst hij
  exact ⟨rfl, Option.some.inj (h.at_index.symm.trans h'.at_index)⟩

theorem not_latest_nil : ¬Latest p [] i x :=
  fun h => Nat.not_lt_zero i h.lt_length

/-! ## One element more -/

theorem latest_concat_of_holds {a : β} (ha : p a) :
    Latest p (xs ++ [a]) i x ↔ i = xs.length ∧ x = a := by
  have hlast : Latest p (xs ++ [a]) xs.length a := by
    refine ⟨List.getElem?_concat_length, ha, fun j y hj hy => ?_⟩
    have hlt := (List.getElem?_eq_some_iff.1 hy).1
    rw [List.length_append, List.length_singleton] at hlt
    omega
  exact ⟨fun h => h.unique hlast, fun ⟨hi, hx⟩ => hi ▸ hx ▸ hlast⟩

theorem latest_concat_of_not {a : β} (ha : ¬p a) :
    Latest p (xs ++ [a]) i x ↔ Latest p xs i x := by
  constructor
  · intro h
    have hlt : i < xs.length := by
      have hle := h.lt_length
      rw [List.length_append, List.length_singleton] at hle
      refine Nat.lt_of_le_of_ne (Nat.le_of_lt_succ hle) fun heq => ?_
      have hx := h.at_index
      rw [heq, List.getElem?_concat_length, Option.some.injEq] at hx
      exact ha (hx ▸ h.holds)
    refine ⟨List.getElem?_append_left hlt ▸ h.at_index, h.holds, fun j y hj hy => ?_⟩
    have hj' := (List.getElem?_eq_some_iff.1 hy).1
    exact h.latest j y hj ((List.getElem?_append_left hj').trans hy)
  · intro h
    refine ⟨(List.getElem?_append_left h.lt_length).trans h.at_index, h.holds, fun j y hj hy => ?_⟩
    rw [List.getElem?_append] at hy
    split at hy
    · exact h.latest j y hj hy
    · rw [List.mem_singleton.1 (List.mem_of_getElem? hy)]
      exact ha

/-! ## Searches from the end -/

theorem find?_reverse_eq_some_iff {q : β → Bool} :
    xs.reverse.find? q = some x ↔ ∃ i, Latest (q · = true) xs i x := by
  induction xs using List.reverseRecOn with
  | nil => exact ⟨nofun, fun ⟨_, h⟩ => absurd h not_latest_nil⟩
  | append_singleton xs a ih =>
    rw [List.reverse_append, List.reverse_singleton, List.singleton_append, List.find?_cons]
    cases ha : q a with
    | true =>
      rw [Option.some.injEq, eq_comm]
      simp only [latest_concat_of_holds (p := (q · = true)) ha, exists_eq_left]
    | false =>
      have hnot : ¬q a = true := by simp [ha]
      simp only [ih, latest_concat_of_not (p := (q · = true)) hnot]

/-- A search that goes back to a position and no further. -/
theorem findSome?_reverse_drop_eq_some_iff {f : β × Nat → Option γ}
    (hf : ∀ x i, p x ↔ (f (x, i)).isSome = true) {first : Nat} {found : γ} :
    (xs.zipIdx.drop first).reverse.findSome? f = some found ↔
      ∃ i x, first ≤ i ∧ Latest p xs i x ∧ f (x, i) = some found := by
  induction xs using List.reverseRecOn with
  | nil =>
    rw [List.zipIdx_nil, List.drop_nil]
    exact ⟨nofun, fun ⟨_, _, _, h, _⟩ => absurd h not_latest_nil⟩
  | append_singleton xs a ih =>
    rw [List.zipIdx_append, List.zipIdx_singleton, Nat.zero_add]
    by_cases hfirst : first ≤ xs.length
    · rw [List.drop_append_of_le_length (by simpa using hfirst), List.reverse_append,
        List.reverse_singleton, List.singleton_append, List.findSome?_cons]
      cases ha : f (a, xs.length) with
      | some y =>
        have hp : p a := (hf a xs.length).2 (by rw [ha]; rfl)
        simp [latest_concat_of_holds hp, ha, hfirst]
      | none =>
        have hp : ¬p a := fun h => by simpa [ha] using (hf a xs.length).1 h
        simp only [ih, latest_concat_of_not hp]
    · have hnil : (xs.zipIdx ++ [(a, xs.length)]).drop first = [] := by
        refine List.drop_eq_nil_of_le ?_
        rw [List.length_append, List.length_zipIdx, List.length_singleton]
        omega
      rw [hnil]
      refine ⟨nofun, fun ⟨i, x, hle, h, _⟩ => ?_⟩
      have hlt := h.lt_length
      rw [List.length_append, List.length_singleton] at hlt
      omega

end PriceAction
