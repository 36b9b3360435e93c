import PriceAction.Liquidity.Sweep
import PriceAction.Proofs.Search
import PriceAction.Proofs.Structure.Swing

/-!
# Sweeps are final

A sweep is settled by the first bar through its swing and the bar after it, so a longer series has
it too (`ofSwing?_append`). The bars that confirm a swing do not trade through it
(`index_add_window_lt`). Together with the laws of swings: nothing that has been shown is repainted
(`detect_neverRepaints`).
-/

namespace PriceAction.Sweep

variable {α : Type} [Scalar α] {side : Direction} {level : α} {i j n : Nat} {bar : Bar α}
  {bars after : List (Bar α)} {sweep : Sweep α} {s s' : Swing α}

/-! ## The first bar through a level -/

theorem firstThrough?_append (h : firstThrough? side level i bars = some (j, bar, after))
    (later : List (Bar α)) :
    firstThrough? side level i (bars ++ later) = some (j, bar, after ++ later) := by
  induction bars generalizing i with
  | nil => cases h
  | cons first rest ih =>
    rw [firstThrough?] at h
    rw [List.cons_append, firstThrough?]
    split at h
    · next hthrough =>
      cases h
      rw [if_pos hthrough]
    · next hshort =>
      rw [if_neg hshort]
      exact ih h

theorem drop_of_firstThrough? (h : firstThrough? side level i bars = some (j, bar, after)) :
    i ≤ j ∧ bars.drop (j - i) = bar :: after := by
  induction bars generalizing i with
  | nil => cases h
  | cons first rest ih =>
    rw [firstThrough?] at h
    split at h
    · cases h
      simp
    · obtain ⟨hle, hdrop⟩ := ih h
      refine ⟨by omega, ?_⟩
      rw [show j - i = j - (i + 1) + 1 by omega, List.drop_succ_cons, hdrop]

theorem le_of_firstThrough? (h : firstThrough? side level i bars = some (j, bar, after))
    (hlength : n ≤ bars.length)
    (hnear : ∀ b ∈ bars.take n, side.beyond (b.extreme side) level = false) : i + n ≤ j := by
  induction bars generalizing i n with
  | nil => cases h
  | cons first rest ih =>
    cases n with
    | zero =>
      rw [firstThrough?] at h
      split at h
      · cases h
        omega
      · have := ih h (Nat.zero_le _) (by simp)
        omega
    | succ n =>
      have hfirst : side.beyond (first.extreme side) level = false := hnear first (by simp)
      rw [firstThrough?, if_neg (by simp [hfirst])] at h
      have := ih h (Nat.le_of_succ_le_succ hlength) fun b hb => hnear b (by simp [hb])
      omega

/-! ## One swing -/

theorem ofSwing?_append (h : ofSwing? bars s = some sweep) (hkept : s.IsKept s')
    (later : List (Bar α)) : ofSwing? (bars ++ later) s' = some sweep := by
  obtain ⟨hindex, -, hprice, hkind, -⟩ := hkept
  rw [ofSwing?] at h ⊢
  simp only [hindex, hprice, hkind]
  cases hthrough : firstThrough? s.kind.side s.price (s.index + 1) (bars.drop (s.index + 1)) with
  | none => simp [hthrough] at h
  | some hit =>
    obtain ⟨j, bar, after⟩ := hit
    have hlength : s.index + 1 ≤ bars.length := by
      by_contra hshort
      rw [List.drop_eq_nil_of_le (by omega)] at hthrough
      cases hthrough
    rw [List.drop_append_of_le_length hlength, firstThrough?_append hthrough]
    simp only [hthrough] at h ⊢
    by_cases hback : closesBack s.kind.side s.price bar = true
    · simpa [hback] using h
    · -- the bar after it closed back, so there was one
      cases after with
      | nil => simp [hback] at h
      | cons next after => exact h

theorem mem_detect_iff {swings : List (Swing α)} :
    sweep ∈ detect bars swings ↔ ∃ s ∈ swings, ofSwing? bars s = some sweep := by
  rw [detect, (List.mergeSort_perm _ _).mem_iff, List.mem_filterMap]

theorem exists_of_ofSwing? (h : ofSwing? bars s = some sweep) :
    ∃ bar after, firstThrough? s.kind.side s.price (s.index + 1) (bars.drop (s.index + 1)) =
        some (sweep.barIndex, bar, after) ∧
      sweep.level = s.price ∧ sweep.side = s.kind.side ∧ sweep.swingIndex = s.index ∧
      sweep.time = bar.time ∧ sweep.reclaimIndex ≤ sweep.barIndex + after.length := by
  rw [ofSwing?] at h
  cases hthrough : firstThrough? s.kind.side s.price (s.index + 1) (bars.drop (s.index + 1)) with
  | none => simp [hthrough] at h
  | some hit =>
    obtain ⟨j, bar, after⟩ := hit
    simp only [hthrough] at h
    obtain ⟨reclaim, hreclaim, rfl⟩ := Option.map_eq_some_iff.1 h
    refine ⟨bar, after, rfl, rfl, rfl, rfl, rfl, ?_⟩
    show reclaim ≤ j + after.length
    split at hreclaim
    · cases hreclaim
      exact Nat.le_add_right ..
    · obtain ⟨hnext, hreclaim⟩ := Option.ite_none_right_eq_some.1 hreclaim
      cases hreclaim
      cases after with
      | nil => simp at hnext
      | cons next rest => exact Nat.add_le_add_left (Nat.succ_le_succ (Nat.zero_le _)) j

theorem exists_drop_of_ofSwing? (h : ofSwing? bars s = some sweep) :
    ∃ bar after, bars.drop sweep.barIndex = bar :: after ∧ sweep.time = bar.time ∧
      sweep.swingIndex < sweep.barIndex ∧ sweep.reclaimIndex ≤ sweep.barIndex + after.length := by
  obtain ⟨bar, after, hthrough, -, -, hswing, htime, hreclaim⟩ := exists_of_ofSwing? h
  obtain ⟨hle, hdrop⟩ := drop_of_firstThrough? hthrough
  rw [List.drop_drop, show s.index + 1 + (sweep.barIndex - (s.index + 1)) = sweep.barIndex by omega]
    at hdrop
  exact ⟨bar, after, hdrop, htime, by omega, hreclaim⟩

/-- The bars that confirm a swing lie before the bar that sweeps it. -/
theorem index_add_window_lt {window cap : Nat} (hs : s ∈ Swing.detect bars window cap)
    (h : ofSwing? bars s = some sweep) : sweep.swingIndex + window < sweep.barIndex := by
  obtain ⟨earlier, bar, later, rfl, hindex, -, hprice, hpivot⟩ := Swing.exists_of_mem_detect hs
  obtain ⟨through, after, hthrough, -, -, hswing, -⟩ := exists_of_ofSwing? h
  obtain ⟨-, hlength, -, hright⟩ := Swing.isPivot_iff.1 hpivot
  have hdrop : (earlier ++ bar :: later).drop (s.index + 1) = later := by
    rw [hindex, List.drop_length_add_append]
    rfl
  rw [hdrop] at hthrough
  have hnear : ∀ b ∈ later.take window,
      s.kind.side.beyond (b.extreme s.kind.side) s.price = false := by
    intro b hb
    rw [hprice]
    exact hright b hb
  have := le_of_firstThrough? hthrough hlength hnear
  omega

/-! ## The whole series -/

theorem exists_isKept {later : List (Bar α)} {window cap : Nat}
    (hs : s ∈ Swing.detect bars window cap) :
    ∃ s' ∈ Swing.detect (bars ++ later) window cap, s.IsKept s' := by
  obtain ⟨more, -, hkept, -⟩ := Swing.detect_append bars later window cap
  obtain ⟨s', hs', h⟩ := exists_mem_of_forall₂ hkept.flip hs
  exact ⟨s', List.mem_of_mem_filter hs', h⟩

theorem exists_mem_detect_take {window cap n : Nat} (hs : s ∈ Swing.detect bars window cap)
    (hn : n ≤ bars.length) (hconfirmed : s.index + window < n) :
    ∃ s' ∈ Swing.detect (bars.take n) window cap, s'.IsKept s := by
  obtain ⟨more, -, hkept, -⟩ := Swing.detect_append (bars.take n) (bars.drop n) window cap
  rw [List.take_append_drop, List.length_take, Nat.min_eq_left hn] at hkept
  have hmem : s ∈ (Swing.detect bars window cap).filter (·.index < n - window) := by
    rw [List.mem_filter]
    exact ⟨hs, decide_eq_true (by omega)⟩
  exact exists_mem_of_forall₂ hkept hmem

/-- Whether a longer series shows all swings and sweeps of a shorter one again: the swings far enough
from its end are found again in their order, at least as strong, and all others lie behind them; the
sweeps are the same; and every sweep comes after the bars that confirm its swing, so that the swing
was known before the sweeping bar. -/
structure NeverRepaints (bars later : List (Bar α)) (window cap : Nat)
    (swings longer : List (Swing α)) : Prop where
  swings_eq : ∃ more, longer = longer.filter (·.index < bars.length - window) ++ more ∧
    List.Forall₂ Swing.IsKept swings (longer.filter (·.index < bars.length - window)) ∧
    ∀ s ∈ more, bars.length - window ≤ s.index
  sweeps_subset : ∀ sweep ∈ detect bars swings, sweep ∈ detect (bars ++ later) longer
  confirmed : ∀ sweep ∈ detect bars swings,
    sweep.swingIndex + window < sweep.barIndex ∧
    ∃ known, Swing.detect? (bars.take sweep.barIndex) window cap = some known ∧
      ∃ s ∈ known, s.index = sweep.swingIndex ∧ s.price = sweep.level ∧ s.kind.side = sweep.side

theorem mem_detect_append {later : List (Bar α)} {window cap : Nat}
    (h : sweep ∈ detect bars (Swing.detect bars window cap)) :
    sweep ∈ detect (bars ++ later) (Swing.detect (bars ++ later) window cap) := by
  obtain ⟨s, hs, hfound⟩ := mem_detect_iff.1 h
  obtain ⟨s', hs', hkept⟩ := exists_isKept hs
  exact mem_detect_iff.2 ⟨s', hs', ofSwing?_append hfound hkept later⟩

theorem exists_known {window cap : Nat} (h : sweep ∈ detect bars (Swing.detect bars window cap)) :
    sweep.swingIndex + window < sweep.barIndex ∧
      ∃ s ∈ Swing.detect (bars.take sweep.barIndex) window cap,
        s.index = sweep.swingIndex ∧ s.price = sweep.level ∧ s.kind.side = sweep.side := by
  obtain ⟨s, hs, hfound⟩ := mem_detect_iff.1 h
  have hconfirmed := index_add_window_lt hs hfound
  obtain ⟨-, -, -, hlevel, hside, hswing, -⟩ := exists_of_ofSwing? hfound
  obtain ⟨bar, after, hdrop, -, -, -⟩ := exists_drop_of_ofSwing? hfound
  have hlength : sweep.barIndex ≤ bars.length := by
    have := congrArg List.length hdrop
    simp only [List.length_drop, List.length_cons] at this
    omega
  obtain ⟨s', hs', hkept⟩ := exists_mem_detect_take hs hlength (hswing ▸ hconfirmed)
  refine ⟨hconfirmed, s', hs', ?_, ?_, ?_⟩
  · rw [← hkept.index_eq, hswing]
  · rw [← hkept.price_eq, hlevel]
  · rw [← hkept.kind_eq, hside]

/-- **Nothing that has been shown is repainted.** A series has swings unless the bars of a window on
both sides are too many for a word, and with any bars added to it they and their sweeps stay. -/
theorem detect_neverRepaints (bars later : List (Bar α)) {window : Nat}
    (hcount : 2 * window + 1 < pow2 64) (cap : Nat) :
    ∃ swings longer, Swing.detect? bars window cap = some swings ∧
      Swing.detect? (bars ++ later) window cap = some longer ∧
      NeverRepaints bars later window cap swings longer := by
  refine ⟨Swing.detect bars window cap, Swing.detect (bars ++ later) window cap, if_pos hcount,
    if_pos hcount, Swing.detect_append bars later window cap, fun sweep => mem_detect_append,
    fun sweep hsweep => ?_⟩
  obtain ⟨hconfirmed, hknown⟩ := exists_known hsweep
  exact ⟨hconfirmed, _, if_pos hcount, hknown⟩

/-- Five bars: a high after the first, and a bar through it that closes back. -/
def sweepingBars : List (Bar Float) :=
  [(10.0, 11.0, 9.0, 10.0), (10.0, 13.0, 10.0, 12.0), (12.0, 12.0, 9.5, 10.0),
    (10.0, 13.5, 10.0, 11.0), (11.0, 12.0, 10.0, 11.0)].zipIdx.map
      fun ((opening, high, low, close), i) =>
        ⟨.ofSeconds (60 * i), opening, high, low, close, 100.0⟩

/-- The high is swept by the fourth bar, as four bars show already. -/
theorem detect_neverRepaints_sweeping :
    2 * 1 + 1 < pow2 64 ∧ ∃ swings longer,
      Swing.detect? (sweepingBars.take 4) 1 4 = some swings ∧
      Swing.detect? (sweepingBars.take 4 ++ sweepingBars.drop 4) 1 4 = some longer ∧
      swings.filterMap (fun s => (ofSwing? (sweepingBars.take 4) s).map (·.barIndex)) = [3] ∧
      NeverRepaints (sweepingBars.take 4) (sweepingBars.drop 4) 1 4 swings longer := by
  have hcount : 2 * 1 + 1 < pow2 64 := by decide
  obtain ⟨swings, longer, hswings, hlonger, h⟩ :=
    detect_neverRepaints (sweepingBars.take 4) (sweepingBars.drop 4) hcount 4
  refine ⟨hcount, swings, longer, hswings, hlonger, ?_, h⟩
  rw [Swing.detect?, if_pos hcount, Option.some_inj] at hswings
  rw [← hswings]
  decide

/-- A word can hold a window so wide that it cannot hold the bars on both sides. -/
theorem not_detect_neverRepaints_widest :
    1 ≤ pow2 63 ∧ pow2 63 < pow2 64 ∧
      ¬∃ swings longer, Swing.detect? sweepingBars (pow2 63) 4 = some swings ∧
        Swing.detect? (sweepingBars ++ []) (pow2 63) 4 = some longer ∧
        NeverRepaints sweepingBars [] (pow2 63) 4 swings longer := by
  refine ⟨by decide, by decide, ?_⟩
  rintro ⟨swings, longer, hdetect, -⟩
  rw [Swing.detect?, if_neg (by decide)] at hdetect
  cases hdetect

end PriceAction.Sweep
