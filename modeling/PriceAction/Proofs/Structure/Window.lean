import Mathlib.Order.Bounds.Basic
import Mathlib.Order.Interval.Set.Basic
import PriceAction.Proofs.Search
import PriceAction.Proofs.Structure.Swing

/-!
# Swings are the bars that stand out

A bar stands out within `k` bars if there are that many on both sides, its extreme lies strictly
beyond theirs before it, and theirs do not lie beyond it after it. The swings of a series are the
bars that stand out within the window, and no others; each is as strong as the largest multiple of
the window within which it still does (`Swing.detect_exact`). It is largest although the search for
it stops at the first multiple that fails, because a bar stands out within all fewer bars
(`Swing.StandsOut.mono`).
-/

namespace PriceAction.Swing

variable {α : Type} [Scalar α] {bars earlier later : List (Bar α)} {bar : Bar α}
  {kind : SwingKind} {window cap k k' i : Nat} {s : Swing α}

/-- Whether a bar is the earliest extreme of the bars up to `k` places from it, which all exist. -/
structure StandsOut (kind : SwingKind) (bars : List (Bar α)) (k i : Nat) : Prop where
  le_index : k ≤ i
  lt_length : i + k < bars.length
  exists_bar : ∃ bar, bars[i]? = some bar ∧
    (∀ j b, i ≤ j + k → j < i → bars[j]? = some b →
      kind.beyond (kind.price bar) (kind.price b) = true) ∧
    ∀ j b, i < j → j ≤ i + k → bars[j]? = some b →
      kind.beyond (kind.price b) (kind.price bar) = false

namespace StandsOut

theorem mono (h : StandsOut kind bars k i) (hle : k' ≤ k) : StandsOut kind bars k' i := by
  obtain ⟨bar, hbar, hbefore, hafter⟩ := h.exists_bar
  have hindex := h.le_index
  have hlength := h.lt_length
  refine ⟨by omega, by omega, bar, hbar, fun j b hj hji => ?_, fun j b hij hj => ?_⟩
  · exact hbefore j b (by omega) hji
  · exact hafter j b hij (by omega)

theorem add_lt {j : Nat} (hi : StandsOut kind bars k i) (hj : StandsOut kind bars k j)
    (hlt : i < j) : i + k < j := by
  obtain ⟨bar, hbar, -, hafter⟩ := hi.exists_bar
  obtain ⟨bar', hbar', hbefore, -⟩ := hj.exists_bar
  by_contra hnear
  have hbeyond := hbefore i bar (by omega) hlt hbar
  rw [hafter j bar' hlt (by omega) hbar'] at hbeyond
  cases hbeyond

end StandsOut

theorem isPivot_iff_standsOut : isPivot kind earlier.reverse bar later k = true ↔
    StandsOut kind (earlier ++ bar :: later) k earlier.length := by
  have hbar : (earlier ++ bar :: later)[earlier.length]? = some bar := by simp
  rw [isPivot_iff, List.length_reverse]
  constructor
  · rintro ⟨hbefore, hafter, hleft, hright⟩
    refine ⟨hbefore, by simp; omega, bar, hbar, fun j b hj hlt hb => ?_, fun j b hlt hj hb => ?_⟩
    · rw [List.getElem?_append_left hlt] at hb
      refine hleft b (mem_take_iff_getElem?.2 ⟨earlier.length - 1 - j, by omega, ?_⟩)
      rw [List.getElem?_reverse (by omega), ← hb]
      congr 1
      omega
    · rw [List.getElem?_append_right hlt.le, List.getElem?_cons, if_neg (by omega)] at hb
      exact hright b (mem_take_iff_getElem?.2 ⟨_, by omega, hb⟩)
  · rintro ⟨hbefore, hlength, bar', hbar', hleft, hright⟩
    obtain rfl : bar = bar' := Option.some.inj (hbar.symm.trans hbar')
    rw [List.length_append, List.length_cons] at hlength
    refine ⟨hbefore, by omega, fun b hb => ?_, fun b hb => ?_⟩
    · obtain ⟨n, hn, hb⟩ := mem_take_iff_getElem?.1 hb
      rw [List.getElem?_reverse (by omega)] at hb
      refine hleft (earlier.length - 1 - n) b (by omega) (by omega) ?_
      rwa [List.getElem?_append_left (by omega)]
    · obtain ⟨n, hn, hb⟩ := mem_take_iff_getElem?.1 hb
      refine hright (earlier.length + 1 + n) b (by omega) (by omega) ?_
      rw [List.getElem?_append_right (by omega), List.getElem?_cons, if_neg (by omega), ← hb]
      congr 1
      omega

theorem standsOut_iff : StandsOut kind bars k i ↔
    ∃ bar ∈ bars[i]?, isPivot kind (bars.take i).reverse bar (bars.drop (i + 1)) k = true := by
  have hsplit (hlt : i < bars.length) :
      isPivot kind (bars.take i).reverse bars[i] (bars.drop (i + 1)) k = true ↔
        StandsOut kind bars k i := by
    have hbars : bars.take i ++ bars[i] :: bars.drop (i + 1) = bars := by
      rw [← List.drop_eq_getElem_cons hlt, List.take_append_drop]
    rw [isPivot_iff_standsOut, hbars, List.length_take_of_le hlt.le]
  constructor
  · intro h
    obtain ⟨bar, hbar, -⟩ := h.exists_bar
    obtain ⟨hlt, rfl⟩ := List.getElem?_eq_some_iff.1 hbar
    exact ⟨bars[i], hbar, (hsplit hlt).2 h⟩
  · rintro ⟨bar, hbar, hpivot⟩
    obtain ⟨hlt, rfl⟩ := List.getElem?_eq_some_iff.1 hbar
    exact (hsplit hlt).1 hpivot

instance : Decidable (StandsOut kind bars k i) :=
  decidable_of_iff _ standsOut_iff.symm

/-! ## Strengths -/

/-- The first failure after `start` ends a search for the largest number with a property that holds
of all smaller numbers too. -/
theorem isGreatest_takeWhile {p : Nat → Bool} (hp : ∀ m n, m ≤ n → p n = true → p m = true)
    (count : Nat) {start : Nat} (hstart : p start = true) :
    IsGreatest {m | start ≤ m ∧ m ≤ start + count ∧ p m = true}
      (((List.range' (start + 1) count).takeWhile p).length + start) := by
  induction count generalizing start with
  | zero =>
    rw [List.range'_zero, List.takeWhile_nil, List.length_nil, Nat.zero_add]
    exact ⟨⟨Nat.le_refl _, Nat.le_refl _, hstart⟩, fun m hm => hm.2.1⟩
  | succ count ih =>
    rw [List.range'_succ]
    by_cases hnext : p (start + 1) = true
    · obtain ⟨⟨hle, hge, hlast⟩, hgreatest⟩ := ih hnext
      rw [List.takeWhile_cons_of_pos hnext, List.length_cons, Nat.add_assoc, Nat.add_comm 1]
      refine ⟨⟨by omega, by omega, hlast⟩, fun m hm => ?_⟩
      rcases Nat.eq_or_lt_of_le hm.1 with rfl | hlt
      · omega
      · exact hgreatest ⟨hlt, by have := hm.2.1; omega, hm.2.2⟩
    · rw [List.takeWhile_cons_of_neg hnext, List.length_nil, Nat.zero_add]
      refine ⟨⟨Nat.le_refl _, by omega, hstart⟩, fun m hm => ?_⟩
      by_contra hlt
      exact hnext (hp (start + 1) m (Nat.not_le.1 hlt) hm.2.2)

/-- The strength is the largest multiple of the window within which the bar stands out. -/
theorem isGreatest_strengthOf (cap : Nat) (hwindow : 1 ≤ window)
    (h : StandsOut kind (earlier ++ bar :: later) window earlier.length) :
    IsGreatest {m | 1 ≤ m ∧ m ≤ max cap 1 ∧
        StandsOut kind (earlier ++ bar :: later) (m * window) earlier.length}
      (strengthOf kind earlier.reverse bar later window cap) := by
  have hpivot (m : Nat) : isPivot kind earlier.reverse bar later (window * m) = true ↔
      StandsOut kind (earlier ++ bar :: later) (m * window) earlier.length := by
    rw [Nat.mul_comm, isPivot_iff_standsOut]
  have hmono (m n : Nat) (hmn : m ≤ n)
      (hn : isPivot kind earlier.reverse bar later (window * n) = true) :
      isPivot kind earlier.reverse bar later (window * m) = true :=
    (hpivot m).2 (((hpivot n).1 hn).mono (Nat.mul_le_mul_right window hmn))
  have hone := (hpivot 1).2 (by rwa [Nat.one_mul])
  obtain ⟨⟨hle, hge, hlast⟩, hgreatest⟩ : IsGreatest _
      (strengthOf kind earlier.reverse bar later window cap) :=
    isGreatest_takeWhile hmono (min (cap - 1) earlier.reverse.length) hone
  refine ⟨⟨hle, by omega, (hpivot _).1 hlast⟩, fun m hm => hgreatest ⟨hm.1, ?_, (hpivot m).2 hm.2.2⟩⟩
  -- more multiples than there are earlier bars do not fit
  have hfits := hm.2.2.le_index
  have hcap := hm.2.1
  have hmul := Nat.le_mul_of_pos_right m hwindow
  rw [List.length_reverse]
  omega

/-! ## The order of swings -/

/-- Whether one swing comes before another: at an earlier bar, or at the same bar as the kind that
such a bar shows first, the low if it closes at or above its opening. -/
def ComesBefore (bars : List (Bar α)) (a b : Swing α) : Prop :=
  a.index < b.index ∨ a.index = b.index ∧ ∃ bar, bars[a.index]? = some bar ∧
    if bar.opening ≤ bar.close then a.kind = .low ∧ b.kind = .high
    else a.kind = .high ∧ b.kind = .low

theorem pairwise_atBar (window cap : Nat) {before after : List (Bar α)}
    (hbar : bars[before.length]? = some bar) :
    (atBar window cap before bar after).Pairwise (ComesBefore bars) := by
  rw [atBar, List.pairwise_map]
  apply List.Pairwise.filter
  by_cases hbullish : bar.opening ≤ bar.close
  · rw [Bar.isBullish, if_pos (decide_eq_true hbullish), List.pairwise_pair]
    exact .inr ⟨rfl, bar, hbar, by rw [if_pos hbullish]; exact ⟨rfl, rfl⟩⟩
  · rw [Bar.isBullish, if_neg (by rwa [decide_eq_true_iff]), List.pairwise_pair]
    exact .inr ⟨rfl, bar, hbar, by rw [if_neg hbullish]; exact ⟨rfl, rfl⟩⟩

theorem pairwise_scan_comesBefore (window cap : Nat) {before after : List (Bar α)}
    (hafter : bars.drop before.length = after) :
    (scan window cap before after).Pairwise (ComesBefore bars) := by
  induction after generalizing before with
  | nil => exact .nil
  | cons bar rest ih =>
    have hbar : bars[before.length]? = some bar := by
      rw [← List.head?_drop, hafter, List.head?_cons]
    have hrest : bars.drop (bar :: before).length = rest := by
      rw [List.length_cons, ← List.tail_drop, hafter, List.tail_cons]
    refine List.pairwise_append.2 ⟨pairwise_atBar window cap hbar, ih hrest, fun a ha b hb => ?_⟩
    have hlate := le_index_of_mem_scan hb
    rw [List.length_cons] at hlate
    exact .inl (by rw [index_of_mem_atBar ha]; omega)

theorem pairwise_detect_comesBefore (bars : List (Bar α)) (window cap : Nat) :
    (detect bars window cap).Pairwise (ComesBefore bars) := by
  rw [detect]
  split
  · exact .nil
  · exact pairwise_scan_comesBefore window cap rfl

/-! ## Every swing and no other -/

theorem standsOut_of_mem_detect (h : s ∈ detect bars window cap) :
    StandsOut s.kind bars window s.index ∧
      (∃ bar, bars[s.index]? = some bar ∧ s.time = bar.time ∧ s.price = s.kind.price bar) ∧
      IsGreatest {m | 1 ≤ m ∧ m ≤ max cap 1 ∧ StandsOut s.kind bars (m * window) s.index}
        s.strength := by
  rw [detect] at h
  split at h
  · cases h
  · next hwindow =>
    obtain ⟨earlier, bar, later, rfl, hs⟩ := mem_scan_iff.1 h
    rw [List.append_nil] at hs
    obtain ⟨kind, hkind, rfl⟩ := List.mem_map.1 hs
    have hstands := isPivot_iff_standsOut.1 (List.mem_filter.1 hkind).2
    dsimp only
    rw [List.length_reverse]
    refine ⟨hstands, ⟨bar, by simp, rfl, rfl⟩, ?_⟩
    exact isGreatest_strengthOf cap (Nat.pos_of_ne_zero hwindow) hstands

theorem exists_mem_detect_iff (hwindow : 1 ≤ window) :
    (∃ s ∈ detect bars window cap, s.kind = kind ∧ s.index = i) ↔
      StandsOut kind bars window i := by
  constructor
  · rintro ⟨s, hs, rfl, rfl⟩
    exact (standsOut_of_mem_detect hs).1
  · intro h
    obtain ⟨bar, hbar, hpivot⟩ := standsOut_iff.1 h
    obtain ⟨hlt, rfl⟩ := List.getElem?_eq_some_iff.1 hbar
    obtain ⟨s, hs, hindex, hkind, -⟩ := exists_mem_detect cap (Nat.ne_of_gt hwindow) hpivot
    rw [← List.drop_eq_getElem_cons hlt, List.take_append_drop] at hs
    exact ⟨s, hs, hkind, hindex.trans (List.length_take_of_le hlt.le)⟩

theorem index_add_lt_of_comesBefore {a b : Swing α} (h : ComesBefore bars a b)
    (ha : StandsOut a.kind bars window a.index) (hb : StandsOut b.kind bars window b.index)
    (hkind : a.kind = b.kind) : a.index + window < b.index := by
  rcases h with hlt | ⟨-, bar, -, horder⟩
  · exact ha.add_lt (hkind ▸ hb) hlt
  · rw [hkind] at horder
    split at horder <;> cases horder.1.symm.trans horder.2

/-- Whether swings are the bars that stand out and no others, each once and in order, with the price
and the time of their bars, and as strong as the largest multiple of the window, up to the cap,
within which they still stand out. -/
structure Exact (bars : List (Bar α)) (window cap : Nat) (swings : List (Swing α)) : Prop where
  exists_iff : ∀ kind i, (∃ s ∈ swings, s.kind = kind ∧ s.index = i) ↔ StandsOut kind bars window i
  ordered : swings.Pairwise (ComesBefore bars)
  placed : ∀ s ∈ swings,
    ∃ bar, bars[s.index]? = some bar ∧ s.time = bar.time ∧ s.price = s.kind.price bar
  strength : ∀ s ∈ swings,
    IsGreatest {m | 1 ≤ m ∧ m ≤ max cap 1 ∧ StandsOut s.kind bars (m * window) s.index} s.strength
  apart : swings.Pairwise fun a b => a.kind = b.kind → a.index + window < b.index

theorem exact_detect (bars : List (Bar α)) (hwindow : 1 ≤ window) (cap : Nat) :
    Exact bars window cap (detect bars window cap) := by
  have horder := pairwise_detect_comesBefore bars window cap
  refine ⟨fun kind i => exists_mem_detect_iff hwindow, horder, fun s hs => ?_, fun s hs => ?_, ?_⟩
  · exact (standsOut_of_mem_detect hs).2.1
  · exact (standsOut_of_mem_detect hs).2.2
  · refine horder.imp_of_mem fun ha hb h => ?_
    exact index_add_lt_of_comesBefore h (standsOut_of_mem_detect ha).1
      (standsOut_of_mem_detect hb).1

/-- **Swings are exactly the bars that stand out.** A bar is a swing of a kind if and only if it is
the earliest extreme of the window around it. Swings are listed bar by bar, each once, the two of
one bar in the order that the bar went through them. A swing has the price and the time of its bar,
and its strength is the largest multiple of the window, up to the cap, within which the bar still
stands out. So two swings of a kind are more than a window apart. There is a result unless the bars
of a window on both sides are too many for a word. -/
theorem detect_exact (bars : List (Bar α)) (hwindow : 1 ≤ window)
    (hcount : 2 * window + 1 < pow2 64) (cap : Nat) :
    ∃ swings, detect? bars window cap = some swings ∧ Exact bars window cap swings :=
  ⟨detect bars window cap, if_pos hcount, exact_detect bars hwindow cap⟩

/-- Five bars, the third of which goes beyond all others on both sides and closes higher. -/
def outsideBars : List (Bar Float) :=
  [(10.0, 10.5, 9.5, 10.0), (10.0, 10.5, 9.5, 10.0), (10.0, 13.0, 7.0, 12.0),
    (11.0, 11.5, 9.0, 10.0), (10.0, 11.0, 9.0, 10.0)].zipIdx.map
      fun ((opening, high, low, close), i) =>
        ⟨.ofSeconds (60 * i), opening, high, low, close, 100.0⟩

/-- It is a low and then a high, and both stand out within two bars. -/
theorem detect_exact_outside :
    1 ≤ 1 ∧ 2 * 1 + 1 < pow2 64 ∧ ∃ swings, detect? outsideBars 1 4 = some swings ∧
      ∃ a ∈ swings, ∃ b ∈ swings, a.kind = .low ∧ b.kind = .high ∧ a.index = 2 ∧ b.index = 2 ∧
        a.strength = 2 ∧ ∀ s ∈ swings, s.index = 2 := by
  have hcount : 2 * 1 + 1 < pow2 64 := by decide
  obtain ⟨swings, hdetect, hexact⟩ := detect_exact outsideBars (Nat.le_refl 1) hcount 4
  refine ⟨Nat.le_refl 1, hcount, swings, hdetect, ?_⟩
  obtain ⟨a, ha, hlow, hindex⟩ := (hexact.exists_iff .low 2).2 (by decide)
  obtain ⟨b, hb, hhigh, hindex'⟩ := (hexact.exists_iff .high 2).2 (by decide)
  obtain ⟨⟨-, -, hstands⟩, hgreatest⟩ := hexact.strength a ha
  refine ⟨a, ha, b, hb, hlow, hhigh, hindex, hindex', ?_, fun s hs => ?_⟩
  · rw [hlow, hindex] at hgreatest hstands
    have htwice : 2 ≤ a.strength := hgreatest (show _ ∧ _ ∧ _ by decide)
    have hfits := hstands.le_index
    omega
  · have hs := (hexact.exists_iff s.kind s.index).1 ⟨s, hs, rfl, rfl⟩
    have hbefore := hs.le_index
    have hafter : s.index + 1 < 5 := hs.lt_length
    have honly : ∀ kind, ∀ i < 5, StandsOut kind outsideBars 1 i → i = 2 := by
      intro kind
      cases kind <;> decide
    exact honly s.kind s.index (by omega) hs

/-- A word can hold a window so wide that it cannot hold the bars on both sides. -/
theorem not_detect_exact_widest :
    1 ≤ pow2 63 ∧ pow2 63 < pow2 64 ∧
      ¬∃ swings, detect? outsideBars (pow2 63) 4 = some swings ∧
        Exact outsideBars (pow2 63) 4 swings := by
  refine ⟨by decide, by decide, ?_⟩
  rintro ⟨swings, hdetect, -⟩
  rw [detect?, if_neg (by decide)] at hdetect
  cases hdetect

end PriceAction.Swing
