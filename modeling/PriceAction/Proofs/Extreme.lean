import Mathlib.Data.List.Induction
import PriceAction.Proofs.Scalar.Lawful
import PriceAction.Proofs.Snapshot.Sanitation

/-!
# Extremes in a direction

Of values that are ordinary numbers, one lies beyond another or it does not, and then the other is
as extreme. So a list of them has a first of its most extreme elements (`exists_firstExtreme`), and
one element more takes its place exactly if it lies beyond it (`FirstExtreme.concat`).
-/

namespace PriceAction

namespace Direction

theorem eq_opposite_of_ne {d d' : Direction} (h : d' ≠ d) : d' = d.opposite := by
  revert h
  cases d' <;> cases d <;> decide

variable {α : Type} [Scalar α] {d : Direction} {x y z : α}

theorem opposite_beyond (d : Direction) (x y : α) : d.opposite.beyond x y = d.beyond y x := by
  cases d <;> rfl

variable [LawfulScalar α]

theorem not_beyond_of_beyond (h : d.beyond x y = true) : d.beyond y x = false := by
  cases d with
  | bullish => exact decide_eq_false (LawfulScalar.not_lt_of_lt (of_decide_eq_true h))
  | bearish => exact decide_eq_false (LawfulScalar.not_lt_of_lt (of_decide_eq_true h))

theorem beyond_self (d : Direction) (x : α) : d.beyond x x = false := by
  cases d <;> exact decide_eq_false (LawfulScalar.lt_irrefl x)

theorem opposite_beyond_of_not_beyond (hx : Scalar.isFinite x = true)
    (hz : Scalar.isFinite z = true) (hxy : d.beyond x y = true) (hxz : ¬d.beyond x z = true) :
    d.opposite.beyond y z = true := by
  cases d with
  | bullish =>
    have hle := LawfulScalar.le_of_not_lt hz hx fun hlt => hxz (decide_eq_true hlt)
    exact decide_eq_true (LawfulScalar.lt_of_lt_of_le (of_decide_eq_true hxy) hle)
  | bearish =>
    have hle := LawfulScalar.le_of_not_lt hx hz fun hlt => hxz (decide_eq_true hlt)
    exact decide_eq_true (LawfulScalar.lt_of_le_of_lt hle (of_decide_eq_true hxy))

theorem beyond_of_beyond (hx : Scalar.isFinite x = true) (hz : Scalar.isFinite z = true)
    (hxy : d.beyond x y = true) (hxz : d.beyond x z = false) : d.beyond z y = true := by
  rw [← opposite_beyond]
  exact opposite_beyond_of_not_beyond hx hz hxy (by rw [hxz]; exact Bool.false_ne_true)

theorem beyond_of_not_beyond (hy : Scalar.isFinite y = true) (hz : Scalar.isFinite z = true)
    (hxy : d.beyond x y = true) (hzy : d.beyond z y = false) : d.beyond x z = true := by
  rw [← opposite_beyond] at hxy hzy ⊢
  exact beyond_of_beyond hy hz hxy hzy

/-! ## The first of the most extreme -/

variable {β : Type} {key : β → α} {xs : List β} {a b : β}

omit [LawfulScalar α] in
/-- Whether an element is the first of the most extreme elements of a list. -/
structure FirstExtreme (d : Direction) (key : β → α) (xs : List β) (a : β) : Prop where
  extreme : ∀ b ∈ xs, d.beyond (key b) (key a) = false
  exists_split : ∃ before after, xs = before ++ a :: after ∧
    ∀ b ∈ before, d.beyond (key a) (key b) = true

namespace FirstExtreme

omit [LawfulScalar α] in
theorem mem (h : d.FirstExtreme key xs a) : a ∈ xs := by
  obtain ⟨before, after, rfl, -⟩ := h.exists_split
  exact List.mem_append_cons_self

theorem singleton (d : Direction) (key : β → α) (a : β) : d.FirstExtreme key [a] a where
  extreme := by simp [beyond_self]
  exists_split := ⟨[], [], rfl, by simp⟩

theorem beyond_all (h : d.FirstExtreme key xs a)
    (hfinite : ∀ b ∈ xs, Scalar.isFinite (key b) = true) (hx : d.beyond x (key a) = true) :
    ∀ b ∈ xs, d.beyond x (key b) = true :=
  fun b hb => beyond_of_not_beyond (hfinite a h.mem) (hfinite b hb) hx (h.extreme b hb)

theorem concat (h : d.FirstExtreme key xs a)
    (hfinite : ∀ b ∈ xs, Scalar.isFinite (key b) = true) (b : β) :
    d.FirstExtreme key (xs ++ [b]) (if d.beyond (key b) (key a) then b else a) := by
  obtain ⟨before, after, hsplit, hbefore⟩ := h.exists_split
  cases hb : d.beyond (key b) (key a) with
  | true =>
    have hall := h.beyond_all hfinite hb
    refine ⟨fun c hc => ?_, xs, [], rfl, hall⟩
    rcases List.mem_append.1 hc with hc | hc
    · exact not_beyond_of_beyond (hall c hc)
    · rw [List.mem_singleton.1 hc]
      exact beyond_self d _
  | false =>
    refine ⟨fun c hc => ?_, before, after ++ [b], ?_, hbefore⟩
    · rcases List.mem_append.1 hc with hc | hc
      · exact h.extreme c hc
      · rw [List.mem_singleton.1 hc]
        exact hb
    · rw [hsplit, List.append_assoc, List.cons_append]
      rfl

end FirstExtreme

theorem exists_firstExtreme (d : Direction) (hne : xs ≠ [])
    (hfinite : ∀ b ∈ xs, Scalar.isFinite (key b) = true) : ∃ a, d.FirstExtreme key xs a := by
  induction xs using List.reverseRecOn with
  | nil => exact absurd rfl hne
  | append_singleton xs b ih =>
    by_cases hxs : xs = []
    · subst hxs
      exact ⟨b, FirstExtreme.singleton d key b⟩
    · have hfinite' : ∀ c ∈ xs, Scalar.isFinite (key c) = true :=
        fun c hc => hfinite c (List.mem_append_left _ hc)
      obtain ⟨a, ha⟩ := ih hxs hfinite'
      exact ⟨_, ha.concat hfinite' b⟩

end Direction

/-! ## The extremes of a bar -/

namespace Bar

variable {α : Type} [Scalar α] [LawfulScalar α] {d : Direction} {x : α} {b : Bar α}

omit [LawfulScalar α] in
theorem isFinite_prices (h : b.isWellFormed = true) :
    Scalar.isFinite b.opening = true ∧ Scalar.isFinite b.high = true ∧
      Scalar.isFinite b.low = true ∧ Scalar.isFinite b.close = true := by
  simp only [isWellFormed, isFinite, Bool.and_eq_true, List.all_cons] at h
  obtain ⟨⟨⟨hopening, hhigh, hlow, hclose, -⟩, -⟩, -⟩ := h
  exact ⟨hopening, hhigh, hlow, hclose⟩

omit [LawfulScalar α] in
theorem isFinite_extreme (h : b.isWellFormed = true) (d : Direction) :
    Scalar.isFinite (b.extreme d) = true := by
  obtain ⟨-, hhigh, hlow, -⟩ := isFinite_prices h
  cases d with
  | bullish => exact hhigh
  | bearish => exact hlow

theorem beyond_opposite_extreme (h : b.isWellFormed = true)
    (hx : d.beyond x (b.extreme d) = true) : d.beyond x (b.extreme d.opposite) = true := by
  have hle : b.low ≤ b.high := LawfulScalar.le_of_not_lt (isFinite_extreme h .bullish)
    (isFinite_extreme h .bearish) (not_lt_of_isWellFormed h).1
  cases d with
  | bullish => exact decide_eq_true (LawfulScalar.lt_of_le_of_lt hle (of_decide_eq_true hx))
  | bearish => exact decide_eq_true (LawfulScalar.lt_of_lt_of_le (of_decide_eq_true hx) hle)

theorem not_close_beyond_extreme (h : b.isWellFormed = true) (d : Direction) :
    d.beyond b.close (b.extreme d) = false := by
  obtain ⟨-, hhigh, hlow⟩ := not_lt_of_isWellFormed h
  obtain ⟨hopening, -, -, hclose⟩ := isFinite_prices h
  cases d with
  | bullish =>
    refine decide_eq_false fun hlt => hhigh ?_
    exact LawfulScalar.lt_of_lt_of_le hlt (LawfulScalar.le_max_right hopening hclose)
  | bearish =>
    refine decide_eq_false fun hlt => hlow ?_
    exact LawfulScalar.lt_of_le_of_lt (LawfulScalar.min_le_right hopening hclose) hlt

end Bar

theorem IsClean.isFinite_extreme {α : Type} [Scalar α] {bars : List (Bar α)} (h : IsClean bars) :
    ∀ b ∈ bars, ∀ d, Scalar.isFinite (b.extreme d) = true :=
  fun b hb => Bar.isFinite_extreme (h.wellFormed b hb)

end PriceAction
