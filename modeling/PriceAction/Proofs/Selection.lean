import PriceAction.Selection

/-!
# Folds that choose

A fold that keeps one of two elements at every step ends in one that is preferred to all it has
seen (`foldl_choice`). So does `choose?`, where its comparison is a total preorder; what it chooses
is always an element (`mem_of_choose?`).
-/

namespace PriceAction

variable {β : Type}

theorem foldl_choice {f : β → β → β} {r : β → β → Prop} (hrefl : ∀ a, r a a)
    (htrans : ∀ a b c, r a b → r b c → r a c) (hchoice : ∀ a b, f a b = a ∨ f a b = b)
    (hleft : ∀ a b, r (f a b) a) (hright : ∀ a b, r (f a b) b) (a : β) (xs : List β) :
    xs.foldl f a ∈ a :: xs ∧ ∀ x ∈ a :: xs, r (xs.foldl f a) x := by
  induction xs generalizing a with
  | nil =>
    refine ⟨List.mem_cons_self, fun x hx => ?_⟩
    rw [List.mem_singleton.1 hx]
    exact hrefl a
  | cons b rest ih =>
    obtain ⟨hmem, hall⟩ := ih (f a b)
    have hstart := hall _ List.mem_cons_self
    rw [List.foldl_cons]
    refine ⟨?_, fun x hx => ?_⟩
    · rcases List.mem_cons.1 hmem with heq | hrest
      · rw [heq]
        rcases hchoice a b with h | h <;> rw [h] <;> simp
      · exact List.mem_cons_of_mem _ (List.mem_cons_of_mem _ hrest)
    · rcases List.mem_cons.1 hx with rfl | hx
      · exact htrans _ _ _ hstart (hleft x b)
      rcases List.mem_cons.1 hx with rfl | hx
      · exact htrans _ _ _ hstart (hright a x)
      · exact hall x (List.mem_cons_of_mem _ hx)

theorem mem_of_foldl_keep {f : Option β → β → Option β}
    (hf : ∀ kept x, f kept x = kept ∨ f kept x = some x) {kept : Option β} {xs : List β} {y : β}
    (h : xs.foldl f kept = some y) : kept = some y ∨ y ∈ xs := by
  induction xs generalizing kept with
  | nil => exact .inl h
  | cons x rest ih =>
    rcases ih h with hkept | hmem
    · rcases hf kept x with hstays | htaken
      · exact .inl (hstays ▸ hkept)
      · rw [htaken, Option.some.injEq] at hkept
        exact .inr (hkept ▸ List.mem_cons_self)
    · exact .inr (List.mem_cons_of_mem x hmem)

theorem mem_of_choose? {replaces : β → β → Bool} {xs : List β} {y : β}
    (h : choose? replaces xs = some y) : y ∈ xs := by
  cases xs with
  | nil => cases h
  | cons x rest =>
    rw [choose?, Option.some.injEq] at h
    subst h
    refine (foldl_choice (r := fun _ _ => True) (fun _ => trivial) (fun _ _ _ _ _ => trivial)
      (fun kept later => ?_) (fun _ _ => trivial) (fun _ _ => trivial) x rest).1
    split
    · exact .inr rfl
    · exact .inl rfl

theorem choose?_map (replaces : β → β → Bool) (f : β → β)
    (h : ∀ x y, replaces (f x) (f y) = replaces x y) (xs : List β) :
    choose? replaces (xs.map f) = (choose? replaces xs).map f := by
  cases xs with
  | nil => rfl
  | cons x rest =>
    refine congrArg some (List.foldl_map_hom fun kept later => ?_)
    rw [h, apply_ite f]

theorem choose?_spec {replaces : β → β → Bool}
    (htrans : ∀ a b c, replaces a b = true → replaces b c = true → replaces a c = true)
    (htotal : ∀ a b, (replaces a b || replaces b a) = true) {xs : List β} {y : β}
    (h : choose? replaces xs = some y) : y ∈ xs ∧ ∀ x ∈ xs, replaces y x = true := by
  have hrefl : ∀ a, replaces a a = true := fun a => by simpa using htotal a a
  cases xs with
  | nil => cases h
  | cons a rest =>
    rw [choose?, Option.some.injEq] at h
    subst h
    refine foldl_choice hrefl htrans (fun kept later => ?_) (fun kept later => ?_)
      (fun kept later => ?_) a rest
    · split
      · exact Or.inr rfl
      · exact Or.inl rfl
    · split
      · next hreplaces => exact hreplaces
      · exact hrefl kept
    · split
      · exact hrefl later
      · next hkept =>
        rw [Bool.not_eq_true] at hkept
        have hor := htotal kept later
        rwa [hkept, Bool.or_false] at hor

end PriceAction
