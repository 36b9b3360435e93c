import PriceAction.Proofs.Structure.Closing
import PriceAction.Proofs.Structure.Extension
import PriceAction.Proofs.Structure.Pivot
import PriceAction.Settings.Validation

/-!
# Closes before a break

A break is dated at the first close beyond its level among the bars of its leg. An earlier close
beyond the level, between the broken pivot and the leg, is overlooked; but it only comes more than a
window after the broken pivot, and only when a bar at the start of the leg or less than a window
after it overtakes all bars in between (`Break.dated_analyze`). For otherwise the most extreme bar
in between would be a swing, more extreme than the pivot that was kept.
-/

namespace PriceAction

variable {α : Type} [Scalar α] [LawfulScalar α]

namespace Swing

/-! ## Bars between two pivots -/

omit [LawfulScalar α] in
/-- A bar more extreme than a window of bars before it and not less than a window of bars after it
is a pivot, wherever the series begins. -/
theorem isPivot_of_beyond {kind : SwingKind} {window : Nat} (before : List (Bar α))
    {u after : List (Bar α)} {m : Bar α} (hfar : window ≤ u.length) (hafter : window ≤ after.length)
    (hu : ∀ b ∈ u, kind.beyond (kind.price m) (kind.price b) = true)
    (hright : ∀ b ∈ after.take window, kind.beyond (kind.price b) (kind.price m) = false) :
    isPivot kind (before ++ u).reverse m after window = true := by
  refine isPivot_iff.2 ⟨by simp; omega, hafter, fun b hb => ?_, hright⟩
  rw [List.reverse_append, List.take_append_of_le_length (by rwa [List.length_reverse])] at hb
  exact hu b (List.mem_reverse.1 (List.mem_of_mem_take hb))

omit [Scalar α] [LawfulScalar α] in
theorem le_length_of_take {p : Bar α → Bool} {window : Nat} {u later : List (Bar α)} {m : Bar α}
    (h : ∀ b ∈ (u ++ m :: later).take window, p b = false) (hm : p m = true) :
    window ≤ u.length := by
  by_contra hclose
  have hmem : m ∈ (u ++ m :: later).take window :=
    List.mem_take_iff_getElem.2 ⟨u.length, by simp; omega, by simp⟩
  rw [h m hmem] at hm
  cases hm

omit [Scalar α] [LawfulScalar α] in
theorem exists_of_not_take {p : Bar α → Bool} {window : Nat} {v later : List (Bar α)}
    (hv : ∀ b ∈ v, p b = false) (h : ¬∀ b ∈ (v ++ later).take window, p b = false) :
    ∃ j bar, j < window ∧ later[j]? = some bar ∧ p bar = true := by
  simp only [not_forall, Bool.not_eq_false] at h
  obtain ⟨b, hb, hpb⟩ := h
  rw [List.take_append] at hb
  rcases List.mem_append.1 hb with hb | hb
  · rw [hv b (List.mem_of_mem_take hb)] at hpb
    cases hpb
  · obtain ⟨j, hj, rfl⟩ := List.mem_take_iff_getElem.1 hb
    exact ⟨j, _, by omega, List.getElem?_eq_getElem (by omega), hpb⟩

/-- When a bar after `first`, up to `final`, goes beyond it, but no swing in between does, some bar
from `final` on, less than a window later, is beyond all bars in between. -/
theorem exists_overtaking {kind : SwingKind} {window : Nat} {before between after : List (Bar α)}
    {first final x : Bar α} (hwindow : window ≠ 0) (hafter : window ≤ after.length)
    (hformed : ∀ b ∈ between ++ [final], b.isWellFormed = true)
    (hnear : ∀ b ∈ (between ++ final :: after).take window,
      kind.beyond (kind.price b) (kind.price first) = false)
    (hx : x ∈ between ++ [final]) (hbeyond : kind.beyond (kind.price x) (kind.price first) = true)
    (hnone : ∀ u m v, between = u ++ m :: v →
      isPivot kind (before ++ first :: u).reverse m (v ++ final :: after) window = true →
      kind.beyond (kind.price m) (kind.price first) = false) :
    ∃ j bar, j < window ∧ (final :: after)[j]? = some bar ∧
      ∀ b ∈ between, kind.beyond (kind.price bar) (kind.price b) = true := by
  by_cases hempty : between = []
  · exact ⟨0, final, by omega, rfl, by simp [hempty]⟩
  have hfiniteAll : ∀ b ∈ between ++ [final], Scalar.isFinite (kind.price b) = true :=
    fun b hb => Bar.isFinite_extreme (hformed b hb) kind.side
  have hfinite : ∀ b ∈ between, Scalar.isFinite (kind.price b) = true :=
    fun b hb => hfiniteAll b (List.mem_append_left _ hb)
  obtain ⟨m, hm⟩ := kind.side.exists_firstExtreme hempty hfinite
  obtain ⟨u, v, rfl, hu⟩ := hm.exists_split
  cases hfinal : kind.beyond (kind.price final) (kind.price m) with
  | true => exact ⟨0, final, by omega, rfl, hm.beyond_all hfinite hfinal⟩
  | false =>
    -- the most extreme bar in between goes beyond `first`, so it is not near
    have hshort : kind.beyond (kind.price x) (kind.price m) = false := by
      rcases List.mem_append.1 hx with hx | hx
      · exact hm.extreme x hx
      · rwa [List.mem_singleton.1 hx]
    have hmfirst : kind.beyond (kind.price m) (kind.price first) = true :=
      Direction.beyond_of_beyond (hfiniteAll x hx) (hfinite m hm.mem) hbeyond hshort
    rw [List.append_assoc, List.cons_append] at hnear
    have hfar : window ≤ u.length := le_length_of_take hnear hmfirst
    by_cases hright : ∀ b ∈ (v ++ final :: after).take window,
        kind.beyond (kind.price b) (kind.price m) = false
    · have hpivot := isPivot_of_beyond (before ++ [first]) hfar (by simp; omega) hu hright
      rw [List.append_assoc, List.singleton_append] at hpivot
      rw [hnone u m v rfl hpivot] at hmfirst
      cases hmfirst
    · have hv : ∀ b ∈ v, kind.beyond (kind.price b) (kind.price m) = false :=
        fun b hb => hm.extreme b (List.mem_append_right u (List.mem_cons_of_mem m hb))
      obtain ⟨j, bar, hj, hbar, hbeyondm⟩ := exists_of_not_take hv hright
      exact ⟨j, bar, hj, hbar, hm.beyond_all hfinite hbeyondm⟩

/-! ## Swings between two pivots -/

variable {bars : List (Bar α)} {window cap k : Nat} {a b : Swing α}

omit [LawfulScalar α] in
/-- What the bars of a series look like around two neighbouring pivots on different bars. -/
theorem exists_bars_of_mem_detect (ha : a ∈ detect bars window cap) (hb : b ∈ detect bars window cap)
    (hlt : a.index < b.index) :
    ∃ before first between final after, bars = before ++ first :: (between ++ final :: after) ∧
      a.index = before.length ∧ b.index = before.length + between.length + 1 ∧
      a.price = a.kind.price first ∧ window ≤ after.length ∧
      ∀ x ∈ (between ++ final :: after).take window,
        a.kind.beyond (a.kind.price x) (a.kind.price first) = false := by
  obtain ⟨before, first, later, hbars, hindex, -, hprice, hpivot⟩ := exists_of_mem_detect ha
  obtain ⟨earlier, final, after, hbars', hindex', -, -, hpivot'⟩ := exists_of_mem_detect hb
  rw [hbars] at hbars'
  obtain ⟨more, rfl, hmore⟩ | ⟨more, rfl, -⟩ := List.append_eq_append_iff.1 hbars'
  · cases more with
    | nil => simp at hindex'; omega
    | cons x between =>
      rw [List.cons_append, List.cons.injEq] at hmore
      obtain ⟨rfl, rfl⟩ := hmore
      refine ⟨before, first, between, final, after, hbars, hindex, ?_, hprice,
        (isPivot_iff.1 hpivot').2.1, (isPivot_iff.1 hpivot).2.2.2⟩
      rw [hindex', List.length_append, List.length_cons]
      omega
  · rw [List.length_append] at hindex
    omega

/-- A bar after a pivot, up to the next one, that goes beyond it is more than a window after it, and
is overtaken with all bars between the two. -/
theorem overtaken_of_pivots (hclean : IsClean bars)
    (ha : (alternate (detect bars window cap))[k]? = some a)
    (hb : (alternate (detect bars window cap))[k + 1]? = some b) {i : Nat} {x : Bar α}
    (hai : a.index < i) (hib : i ≤ b.index) (hx : bars[i]? = some x)
    (hbeyond : a.kind.beyond (a.kind.price x) a.price = true) :
    a.index + window < i ∧ ∃ j bar, b.index ≤ j ∧ j < b.index + window ∧ bars[j]? = some bar ∧
      ∀ n y, a.index < n → n < b.index → bars[n]? = some y →
        a.kind.beyond (a.kind.price bar) (a.kind.price y) = true := by
  have hmem {n : Nat} {s : Swing α} (hs : (alternate (detect bars window cap))[n]? = some s) :
      s ∈ detect bars window cap := (alternate_sublist _).subset (List.mem_of_getElem? hs)
  have hwindow : window ≠ 0 := by
    rintro rfl
    exact absurd (hmem ha) (List.not_mem_nil)
  have hfinite : ∀ s ∈ detect bars window cap, Scalar.isFinite s.price = true := by
    intro s hs
    obtain ⟨earlier, bar, later, hbars, -, -, hprice, -⟩ := exists_of_mem_detect hs
    rw [hprice]
    exact Bar.isFinite_extreme (hclean.wellFormed bar (hbars ▸ List.mem_append_cons_self)) _
  obtain ⟨before, first, between, final, after, hbars, hindex, hindex', hprice, hafter, hnear⟩ :=
    exists_bars_of_mem_detect (hmem ha) (hmem hb) (by omega)
  rw [hprice] at hbeyond
  have hget (n : Nat) (hn : a.index < n) :
      bars[n]? = (between ++ final :: after)[n - (a.index + 1)]? := by
    rw [hbars, List.getElem?_append_right (by omega),
      show n - before.length = n - (a.index + 1) + 1 by omega, List.getElem?_cons_succ]
  have hxbetween : x ∈ between ++ [final] := by
    rw [hget i hai, List.append_cons,
      List.getElem?_append_left (by rw [List.length_append, List.length_singleton]; omega)] at hx
    exact List.mem_of_getElem? hx
  -- a swing in between would be more extreme than the pivot kept for it
  have hnone : ∀ u m v, between = u ++ m :: v →
      isPivot a.kind (before ++ first :: u).reverse m (v ++ final :: after) window = true →
      a.kind.beyond (a.kind.price m) (a.kind.price first) = false := by
    intro u m v hsplit hpivot
    have hbars' : bars = (before ++ first :: u) ++ m :: (v ++ final :: after) := by
      simp [hbars, hsplit]
    obtain ⟨s, hs, hsindex, hskind, hsprice⟩ := exists_mem_detect cap hwindow hpivot
    rw [← hbars'] at hs
    simp only [hsplit, List.length_append, List.length_cons] at hindex' hsindex
    rw [← hsprice, ← hprice]
    exact Leg.not_beyond_of_between hfinite (pairwise_detect bars window cap) ha hb hs hskind
      (by omega) (by omega)
  constructor
  · by_contra hclose
    rw [hget i hai] at hx
    have hmem : x ∈ (between ++ final :: after).take window :=
      List.mem_of_getElem? ((List.getElem?_take_of_lt (by omega)).trans hx)
    rw [hnear x hmem] at hbeyond
    cases hbeyond
  · have hformed : ∀ y ∈ between ++ [final], y.isWellFormed = true := by
      intro y hy
      refine hclean.wellFormed y ?_
      rw [hbars, List.append_cons between]
      exact List.mem_append_right _ (List.mem_cons_of_mem _ (List.mem_append_left _ hy))
    obtain ⟨j, bar, hj, hbar, hall⟩ :=
      exists_overtaking hwindow hafter hformed hnear hxbetween hbeyond hnone
    refine ⟨b.index + j, bar, by omega, by omega, ?_, fun n y hn hn' hy => hall y ?_⟩
    · rw [hget _ (by omega), List.getElem?_append_right (by omega), ← hbar]
      congr 1
      omega
    · rw [hget n hn, List.getElem?_append_left (by omega)] at hy
      exact List.mem_of_getElem? hy

end Swing

/-! ## Breaks -/

namespace Break

/-- Whether a bar after the broken pivot, but before the bar of a break, closes beyond its level. -/
def ClosesBefore (bars : List (Bar α)) (broken : Swing α) (e : Break α) (i : Nat) : Prop :=
  broken.index < i ∧ i < e.barIndex ∧
    ∃ bar, bars[i]? = some bar ∧ e.direction.beyond bar.close e.price = true

instance (bars : List (Bar α)) (broken : Swing α) (e : Break α) (i : Nat) :
    Decidable (e.ClosesBefore bars broken i) :=
  decidable_of_iff (broken.index < i ∧ i < e.barIndex ∧
    ∃ bar ∈ bars[i]?, e.direction.beyond bar.close e.price = true) Iff.rfl

/-- Where a close beyond the start of the leg before can be overlooked: it is more than a window
after that start and not after the start of the leg, and less than a window from there a bar is
beyond all bars between the two. -/
structure Overlooked (bars : List (Bar α)) (window : Nat) (before leg : Leg α) (i : Nat) :
    Prop where
  after_window : before.start.index + window < i
  le_start : i ≤ leg.start.index
  overtaken : ∃ j bar, leg.start.index ≤ j ∧ j < leg.start.index + window ∧
    bars[j]? = some bar ∧ ∀ n y, before.start.index < n → n < leg.start.index →
      bars[n]? = some y →
      leg.direction.beyond (bar.extreme leg.direction) (y.extreme leg.direction) = true

variable {bars : List (Bar α)} {window cap k i : Nat} {before leg : Leg α}

/-- Between neighbouring legs, a close beyond the start of the first in the direction of the second
is overlooked. -/
theorem overlooked_of_close (hclean : IsClean bars)
    (hbefore : (Leg.ofSwings (Swing.detect bars window cap))[k]? = some before)
    (hleg : (Leg.ofSwings (Swing.detect bars window cap))[k + 1]? = some leg)
    (hstart : before.start.index < i) (hstop : i ≤ leg.start.index) {bar : Bar α}
    (hbar : bars[i]? = some bar)
    (hclose : leg.direction.beyond bar.close before.start.price = true) :
    Overlooked bars window before leg i := by
  have hjoin := Leg.joins_of_getElem? hbefore
  have hjoin' := Leg.joins_of_getElem? hleg
  have hturns := isChain_alternate (Swing.detect bars window cap)
  have hkind : before.start.kind = leg.stop.kind := SwingKind.eq_of_ne_of_ne
    (Leg.kind_ne_of_getElem? hturns hjoin.start_eq hjoin'.start_eq)
    (Leg.kind_ne_of_getElem? hturns hjoin'.start_eq hjoin'.stop_eq)
  have hside : before.start.kind.side = leg.direction := congrArg SwingKind.side hkind
  have hformed := hclean.wellFormed bar (List.mem_of_getElem? hbar)
  have hbeyond : leg.direction.beyond (bar.extreme leg.direction) before.start.price = true :=
    Direction.beyond_of_beyond (Bar.isFinite_prices hformed).2.2.2 (Bar.isFinite_extreme hformed _)
      hclose (Bar.not_close_beyond_extreme hformed _)
  obtain ⟨hwindow, hovertaken⟩ := Swing.overtaken_of_pivots hclean hjoin.start_eq hjoin'.start_eq
    hstart hstop hbar (by rwa [SwingKind.beyond, SwingKind.price, hside])
  simp only [SwingKind.beyond, SwingKind.price, hside] at hovertaken
  exact ⟨hwindow, hstop, hovertaken⟩

/-- **When breaks are dated.** On clean bars a break is at a bar of its leg that closes beyond the
start of the leg before, and no earlier bar after that start does so, but for those that are
overlooked. -/
theorem dated_analyze (bars : List (Bar α)) (settings : Settings α) (hclean : IsClean bars) :
    let s := Structure.analyze bars settings
    ∀ e ∈ s.breaks, ∃ k before leg, e.legIndex = k + 1 ∧ s.legs[k]? = some before ∧
      s.legs[k + 1]? = some leg ∧ e.direction = leg.direction ∧ e.price = before.start.price ∧
      leg.ClosesBeyond bars e.price e.barIndex ∧
      ∀ i, e.ClosesBefore bars before.start i →
        Overlooked bars settings.swing.window before leg i := by
  intro s e he
  rw [Structure.breaks_analyze] at he
  split at he
  · obtain ⟨k, leg, prior, hindex, hleg, hprior, hof⟩ := exists_of_mem_along he
    rw [Nat.zero_add] at hindex
    cases k with
    | zero => cases hprior
    | succ k =>
      obtain ⟨before, hbefore, rfl⟩ := Option.map_eq_some_iff.1 hprior
      refine ⟨k, before, leg, hindex, hbefore, hleg, hof.direction_eq, hof.price_eq,
        hof.price_eq ▸ hof.closes.1, fun i => ?_⟩
      rintro ⟨hstart, hearlier, bar, hbar, hclose⟩
      rw [hof.direction_eq, hof.price_eq] at hclose
      have hstop : i ≤ leg.start.index := by
        by_contra hinside
        have hleast := hof.closes.2 (show leg.ClosesBeyond bars before.start.price i from
          ⟨by omega, le_trans hearlier.le hof.closes.1.2.1, bar, hbar, hclose⟩)
        omega
      exact overlooked_of_close hclean hbefore hleg hstart hstop hbar hclose
  · cases he

/-- A rise to a high at 110 (bar 9). A bar soon closes above it (12), but the bar of the next low
(14) goes higher still, and so do all bars up to the next high (18). -/
def spanningBars : List (Bar Float) :=
  [(98.0, 99.5, 97.5, 99.0), (99.0, 100.5, 98.5, 100.0), (100.0, 101.5, 99.5, 101.0),
    (101.0, 102.5, 100.5, 102.0), (102.0, 103.5, 101.5, 103.0), (103.0, 104.5, 102.5, 104.0),
    (104.0, 105.5, 103.5, 105.0), (105.0, 106.5, 104.5, 106.0), (106.0, 107.5, 105.5, 107.0),
    (107.0, 110.0, 106.5, 108.0), (108.0, 109.0, 105.0, 106.0), (106.0, 108.0, 104.0, 105.0),
    (105.0, 113.0, 104.5, 112.0), (112.0, 114.0, 103.0, 104.0), (104.0, 115.0, 95.0, 109.0),
    (109.0, 116.0, 104.0, 108.0), (108.0, 117.0, 105.0, 116.0), (116.0, 120.0, 115.0, 119.0),
    (119.0, 125.0, 118.0, 124.0), (124.0, 124.5, 117.0, 118.0), (118.0, 119.0, 112.0, 113.0)].zipIdx.map
      fun ((opening, high, low, close), i) =>
        ⟨.ofSeconds (60 * i), opening, high, low, close, 100.0⟩

theorem isClean_spanningBars : IsClean spanningBars :=
  ⟨by decide +kernel, by decide⟩

/-- The high is broken at bar 16, though bar 12 has closed above it. -/
theorem late_spanningBars :
    let s := Structure.analyze spanningBars Settings.standard
    IsClean spanningBars ∧ (Settings.standard : Settings Float).fault? = none ∧
      ∃ e ∈ s.breaks, ∃ before ∈ s.legs[e.legIndex - 1]?,
        e.barIndex = 16 ∧ e.ClosesBefore spanningBars before.start 12 :=
  ⟨isClean_spanningBars, by decide, by decide +kernel⟩

theorem dated_analyze_spanning :
    let s := Structure.analyze spanningBars Settings.standard
    IsClean spanningBars ∧ ∃ e ∈ s.breaks, ∃ before leg, s.legs[e.legIndex - 1]? = some before ∧
      s.legs[e.legIndex]? = some leg ∧ e.ClosesBefore spanningBars before.start 12 ∧
      Overlooked spanningBars 2 before leg 12 := by
  intro s
  have hlate : ∃ e ∈ s.breaks, ∃ before ∈ s.legs[e.legIndex - 1]?,
      e.ClosesBefore spanningBars before.start 12 := by decide +kernel
  obtain ⟨e, he, before', hbefore', hclose⟩ := hlate
  obtain ⟨k, before, leg, hk, hbefore, hleg, -, -, -, hall⟩ :=
    dated_analyze spanningBars Settings.standard isClean_spanningBars e he
  obtain rfl : k = e.legIndex - 1 := by omega
  obtain rfl : before' = before := Option.some.inj (hbefore'.symm.trans hbefore)
  rw [← hk] at hleg
  exact ⟨isClean_spanningBars, e, he, before', leg, hbefore, hleg, hclose, hall 12 hclose⟩

end Break

end PriceAction
