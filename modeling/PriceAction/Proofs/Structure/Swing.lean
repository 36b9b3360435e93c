import Mathlib.Data.List.Forall2
import Mathlib.Order.Lattice
import PriceAction.Proofs.Structure.Extension

/-!
# Swings are confirmed once

Whether a bar is a swing is settled by the `window` bars on each side of it. So the swings of a
longer series at the bars that have them all are the swings of the shorter series
(`detect_append`); nothing of them changes but the strength, which may grow.
-/

namespace PriceAction

variable {α : Type}

/-- Whether a swing is found again, at least as strong as before. -/
structure Swing.IsKept (s s' : Swing α) : Prop where
  index_eq : s'.index = s.index
  time_eq : s'.time = s.time
  price_eq : s'.price = s.price
  kind_eq : s'.kind = s.kind
  strength_le : s.strength ≤ s'.strength

namespace Swing

variable [Scalar α] {window cap k : Nat} {before bars after : List (Bar α)} {bar : Bar α}
  {s : Swing α} {kind : SwingKind}

/-! ## One bar -/

theorem isPivot_iff :
    isPivot kind before bar after k = true ↔
      k ≤ before.length ∧ k ≤ after.length ∧
        (∀ b ∈ before.take k, kind.beyond (kind.price bar) (kind.price b) = true) ∧
        ∀ b ∈ after.take k, kind.beyond (kind.price b) (kind.price bar) = false := by
  simp [isPivot, and_assoc]

theorem isPivot_append_of (h : isPivot kind before bar after k = true) (later : List (Bar α)) :
    isPivot kind before bar (after ++ later) k = true := by
  rw [isPivot_append kind before bar (isPivot_iff.1 h).2.1 later]
  exact h

theorem length_takeWhile_le {β : Type} {p q : β → Bool} (h : ∀ x, p x = true → q x = true)
    (xs : List β) : (xs.takeWhile p).length ≤ (xs.takeWhile q).length := by
  induction xs with
  | nil => simp
  | cons x rest ih =>
    by_cases hx : p x = true
    · simp [hx, h x hx, ih]
    · simp [hx]

theorem strengthOf_le_append (kind : SwingKind) (before : List (Bar α)) (bar : Bar α)
    (after later : List (Bar α)) (window cap : Nat) :
    strengthOf kind before bar after window cap ≤
      strengthOf kind before bar (after ++ later) window cap := by
  rw [strengthOf, strengthOf]
  apply Nat.succ_le_succ
  apply length_takeWhile_le
  intro m hm
  exact isPivot_append_of hm later

theorem isKept_atBar_append (h : window ≤ after.length) (later : List (Bar α)) :
    List.Forall₂ IsKept (atBar window cap before bar after)
      (atBar window cap before bar (after ++ later)) := by
  simp only [atBar, isPivot_append _ before bar h later]
  rw [List.forall₂_map_left_iff, List.forall₂_map_right_iff, List.forall₂_same]
  intro kind _
  exact ⟨rfl, rfl, rfl, rfl, strengthOf_le_append kind before bar after later window cap⟩

/-! ## The whole series -/

theorem mem_scan_iff :
    s ∈ scan window cap before bars ↔
      ∃ earlier bar later, bars = earlier ++ bar :: later ∧
        s ∈ atBar window cap (earlier.reverse ++ before) bar later := by
  induction bars generalizing before with
  | nil => simp [scan]
  | cons first rest ih =>
    rw [scan, List.mem_append, ih]
    constructor
    · rintro (hfirst | ⟨earlier, bar, later, rfl, hs⟩)
      · exact ⟨[], first, rest, rfl, hfirst⟩
      · exact ⟨first :: earlier, bar, later, rfl, by simpa using hs⟩
    · rintro ⟨earlier, bar, later, hbars, hs⟩
      cases earlier with
      | nil =>
        cases hbars
        exact .inl hs
      | cons first' earlier =>
        cases hbars
        exact .inr ⟨earlier, bar, later, rfl, by simpa using hs⟩

theorem exists_of_mem_detect (h : s ∈ detect bars window cap) :
    ∃ earlier bar later, bars = earlier ++ bar :: later ∧ s.index = earlier.length ∧
      s.time = bar.time ∧ s.price = s.kind.price bar ∧
      isPivot s.kind earlier.reverse bar later window = true := by
  rw [detect] at h
  split at h
  · cases h
  · obtain ⟨earlier, bar, later, hbars, hs⟩ := mem_scan_iff.1 h
    rw [List.append_nil] at hs
    obtain ⟨kind, hkind, rfl⟩ := List.mem_map.1 hs
    have hpivot := (List.mem_filter.1 hkind).2
    exact ⟨earlier, bar, later, hbars, by simp, rfl, rfl, hpivot⟩

theorem exists_mem_detect (cap : Nat) {earlier later : List (Bar α)} (hwindow : window ≠ 0)
    (h : isPivot kind earlier.reverse bar later window = true) :
    ∃ s ∈ detect (earlier ++ bar :: later) window cap,
      s.index = earlier.length ∧ s.kind = kind ∧ s.price = kind.price bar := by
  have hkind : kind ∈ if bar.isBullish then [SwingKind.low, .high] else [.high, .low] := by
    cases kind <;> cases bar.isBullish <;> simp
  rw [detect, if_neg hwindow]
  let s : Swing α := ⟨earlier.reverse.length, bar.time, kind.price bar, kind,
    strengthOf kind earlier.reverse bar later window cap⟩
  have hbar : s ∈ atBar window cap (earlier.reverse ++ []) bar later := by
    rw [List.append_nil]
    exact List.mem_map.2 ⟨kind, List.mem_filter.2 ⟨hkind, h⟩, rfl⟩
  exact ⟨s, mem_scan_iff.2 ⟨earlier, bar, later, rfl, hbar⟩, List.length_reverse, rfl, rfl⟩

/-- The bars of a series that have all the bars they are judged by are judged alike in a longer
one, and no other bar of the series is a swing. -/
theorem scan_append (window cap : Nat) (before bars later : List (Bar α)) :
    ∃ kept more, scan window cap before (bars ++ later) = kept ++ more ∧
      List.Forall₂ IsKept (scan window cap before bars) kept ∧
      (∀ s ∈ kept, s.index + window < before.length + bars.length) ∧
      ∀ s ∈ more, before.length + bars.length ≤ s.index + window := by
  induction bars generalizing before with
  | nil =>
    refine ⟨[], scan window cap before later, rfl, .nil, by simp, ?_⟩
    intro s hs
    have := le_index_of_mem_scan hs
    simp only [List.length_nil]
    omega
  | cons bar after ih =>
    by_cases h : window ≤ after.length
    · obtain ⟨kept, more, hscan, hkept, hbefore, hmore⟩ := ih (bar :: before)
      simp only [List.length_cons] at hbefore hmore ⊢
      refine ⟨atBar window cap before bar (after ++ later) ++ kept, more, ?_, ?_, ?_, ?_⟩
      · rw [List.cons_append, scan, hscan, List.append_assoc]
      · exact List.rel_append (isKept_atBar_append h later) hkept
      · intro s hs
        rcases List.mem_append.1 hs with hbar | hs
        · have := index_of_mem_atBar hbar
          omega
        · have := hbefore s hs
          omega
      · intro s hs
        have := hmore s hs
        omega
    · -- too few bars are left for any swing
      have hnil : scan window cap before (bar :: after) = [] := scan_eq_nil (by simp; omega)
      rw [hnil]
      refine ⟨[], scan window cap before (bar :: after ++ later), rfl, .nil, by simp, ?_⟩
      intro s hs
      have := le_index_of_mem_scan hs
      simp only [List.length_cons]
      omega

theorem detect_append (bars later : List (Bar α)) (window cap : Nat) :
    ∃ more, detect (bars ++ later) window cap =
        (detect (bars ++ later) window cap).filter (·.index < bars.length - window) ++ more ∧
      List.Forall₂ IsKept (detect bars window cap)
        ((detect (bars ++ later) window cap).filter (·.index < bars.length - window)) ∧
      ∀ s ∈ more, bars.length - window ≤ s.index := by
  rw [detect, detect]
  split
  · exact ⟨[], rfl, .nil, by simp⟩
  · obtain ⟨kept, more, hscan, hkept, hbefore, hmore⟩ := scan_append window cap [] bars later
    simp only [List.length_nil, Nat.zero_add] at hbefore hmore
    have hfilter : (scan window cap [] (bars ++ later)).filter
        (·.index < bars.length - window) = kept := by
      have hall : kept.filter (·.index < bars.length - window) = kept := by
        rw [List.filter_eq_self]
        intro s hs
        have := hbefore s hs
        exact decide_eq_true (by omega)
      have hnone : more.filter (·.index < bars.length - window) = [] := by
        rw [List.filter_eq_nil_iff]
        intro s hs hlt
        have := hmore s hs
        have := of_decide_eq_true hlt
        omega
      rw [hscan, List.filter_append, hall, hnone, List.append_nil]
    refine ⟨more, ?_, ?_, ?_⟩
    · rw [hfilter, hscan]
    · rwa [hfilter]
    · intro s hs
      have := hmore s hs
      omega

end Swing

end PriceAction
