import Mathlib.Order.Interval.Set.Basic
import PriceAction.Proofs.Liquidity.Pool
import PriceAction.Proofs.Structure.Range

/-!
# The pools of the active range

The active range is a longest stretch of bars within its bounds, and some of its bars reach each of
them. So both of its extremes are pools (`TradingRange.Maximal.markExtremes`), and the search for a
range ends in one such range unless there are too few bars or they have no width
(`TradingRange.detect_maximal`).
-/

namespace PriceAction

/-! ## Nearness -/

/-- A number is near itself at every tolerance that is not negative, unless the tolerance is
infinite and the number is zero: then the share of the number is no number. -/
theorem near_self {tolerance x : Float} (hx : Scalar.isFinite x = true) (ht : 0.0 ≤ tolerance)
    (h : Scalar.isFinite tolerance = true ∨ 0.0 < Scalar.abs x) : near tolerance x x = true :=
  decide_eq_true (Floating.abs_sub_self_le hx
    (Floating.nonneg_mul ht (Floating.abs_nonneg hx) (Floating.isFinite_abs hx) h))

example : near (1.0 / 0.0 : Float) 0.0 0.0 = false := by decide

/-! ## Touches -/

namespace Pool

section Touches

variable {α : Type} [Scalar α] {bars : List (Bar α)} {r : TradingRange α} {tolerance : α}
  {side : Direction} {bias : Bias} {settings : LiquiditySettings α} {p : Pool α}

/-- Whether the bar at a position belongs to a range and comes near its extreme on a side. -/
def TouchedAt (bars : List (Bar α)) (r : TradingRange α) (tolerance : α) (side : Direction)
    (i : Nat) : Prop :=
  i ∈ Set.Icc r.startIndex r.stopIndex ∧
    ∃ b, bars[i]? = some b ∧ near tolerance (b.extreme side) (r.extreme side) = true

/-- Whether a pool marks the extreme of a range on a side, with the touches of its bars. -/
structure Marks (bars : List (Bar α)) (r : TradingRange α) (bias : Bias) (tolerance : α)
    (side : Direction) (p : Pool α) : Prop where
  kind_eq : p.kind = .rangeExtreme
  price_eq : p.price = r.extreme side
  direction_eq : p.direction = side
  coherent : p.Coherent bars bias
  touches_eq : p.touches =
    (r.window bars).countP fun b => near tolerance (b.extreme side) (r.extreme side)
  first : IsLeast {i | TouchedAt bars r tolerance side i} p.firstIndex
  last : IsGreatest {i | TouchedAt bars r tolerance side i} p.lastIndex

/-- Whether the pools of a range are one at each of its extremes. -/
def MarkExtremes (bars : List (Bar α)) (r : TradingRange α) (bias : Bias)
    (settings : LiquiditySettings α) : Prop :=
  ∃ above below, rangeExtremes bars r bias settings = [above, below] ∧
    above.Marks bars r bias settings.tolerance .bullish ∧
    below.Marks bars r bias settings.tolerance .bearish

/-- The bars of a range that come near its extreme on a side. -/
def touching (bars : List (Bar α)) (r : TradingRange α) (tolerance : α) (side : Direction) :
    List (Bar α × Nat) :=
  ((r.window bars).zipIdx r.startIndex).filter fun (bar, _) =>
    near tolerance (bar.extreme side) (r.extreme side)

omit [Scalar α] in
theorem mem_window_zipIdx_iff {b : Bar α} {i : Nat} :
    (b, i) ∈ (r.window bars).zipIdx r.startIndex ↔
      i ∈ Set.Icc r.startIndex r.stopIndex ∧ bars[i]? = some b := by
  rw [List.mem_zipIdx_iff_le_and_getElem?_sub, TradingRange.window, List.getElem?_drop,
    List.getElem?_take, Option.ite_none_right_eq_some, Set.mem_Icc, and_assoc]
  refine and_congr_right fun hle => ?_
  rw [Nat.add_sub_cancel' hle, Nat.lt_succ_iff]

theorem touchedAt_iff {i : Nat} :
    TouchedAt bars r tolerance side i ↔ ∃ b, (b, i) ∈ touching bars r tolerance side := by
  simp only [TouchedAt, touching, List.mem_filter, mem_window_zipIdx_iff, and_assoc,
    exists_and_left]

theorem pairwise_touching : (touching bars r tolerance side).Pairwise fun a b => a.2 ≤ b.2 :=
  (pairwise_zipIdx _ _).filter _

theorem isLeast_of_head? {x : Bar α × Nat} (h : (touching bars r tolerance side).head? = some x) :
    IsLeast {i | TouchedAt bars r tolerance side i} x.2 := by
  refine ⟨touchedAt_iff.2 ⟨x.1, List.mem_of_mem_head? h⟩, fun i hi => ?_⟩
  obtain ⟨b, hb⟩ := touchedAt_iff.1 hi
  exact rel_of_head? (r := fun a b => a.2 ≤ b.2) (fun _ => Nat.le_refl _) pairwise_touching h
    (b, i) hb

theorem isGreatest_of_getLast? {x : Bar α × Nat}
    (h : (touching bars r tolerance side).getLast? = some x) :
    IsGreatest {i | TouchedAt bars r tolerance side i} x.2 := by
  refine ⟨touchedAt_iff.2 ⟨x.1, List.mem_of_getLast? h⟩, fun i hi => ?_⟩
  obtain ⟨b, hb⟩ := touchedAt_iff.1 hi
  exact rel_of_getLast? (r := fun a b => a.2 ≤ b.2) (fun _ => Nat.le_refl _) pairwise_touching h
    (b, i) hb

theorem length_touching : (touching bars r tolerance side).length =
    (r.window bars).countP fun b => near tolerance (b.extreme side) (r.extreme side) := by
  conv_rhs => rw [← List.zipIdx_map_fst r.startIndex (r.window bars)]
  rw [touching, ← List.countP_eq_length_filter, List.countP_map]
  rfl

theorem exists_ofRange? {b : Bar α} (hb : b ∈ r.window bars)
    (hnear : near settings.tolerance (b.extreme side) (r.extreme side) = true) :
    ∃ p, ofRange? bars r bias settings side = some p ∧
      p.Marks bars r bias settings.tolerance side := by
  obtain ⟨n, hn⟩ := List.getElem?_of_mem hb
  have hmem : (b, r.startIndex + n) ∈ touching bars r settings.tolerance side :=
    List.mem_filter.2 ⟨List.mem_zipIdx_iff_le_and_getElem?_sub.2
      ⟨Nat.le_add_right .., by rwa [Nat.add_sub_cancel_left]⟩, hnear⟩
  have hne := List.ne_nil_of_mem hmem
  obtain ⟨x, hx⟩ : ∃ x, (touching bars r settings.tolerance side).head? = some x :=
    ⟨_, List.head?_eq_some_head hne⟩
  obtain ⟨y, hy⟩ : ∃ y, (touching bars r settings.tolerance side).getLast? = some y :=
    ⟨_, List.getLast?_eq_some_getLast hne⟩
  obtain ⟨p, hp, hkind, hprice, hdirection, htouches, hfirst, hlast⟩ :
      ∃ p, ofRange? bars r bias settings side = some p ∧ p.kind = .rangeExtreme ∧
        p.price = r.extreme side ∧ p.direction = side ∧
        p.touches = (touching bars r settings.tolerance side).length ∧
        p.firstIndex = x.2 ∧ p.lastIndex = y.2 := by
    rw [ofRange?]
    dsimp only
    rw [← touching, hx, hy]
    exact ⟨_, rfl, rfl, rfl, rfl, rfl, rfl, rfl⟩
  exact ⟨p, hp, hkind, hprice, hdirection, coherent_ofRange? hp, htouches.trans length_touching,
    hfirst ▸ isLeast_of_head? hx, hlast ▸ isGreatest_of_getLast? hy⟩

end Touches

end Pool

namespace TradingRange

variable {bars : List (Bar Float)} {settings : RangeSettings} {r : TradingRange Float}

/-- Both extremes of the range are pools, at every tolerance that is not negative and of which the
extremes have a share. -/
theorem Maximal.markExtremes (h : r.Maximal bars settings)
    (hfinite : ∀ b ∈ bars, ∀ d, Scalar.isFinite (b.extreme d) = true) (bias : Bias)
    {liquidity : LiquiditySettings Float} (ht : 0.0 ≤ liquidity.tolerance)
    (hshare : Scalar.isFinite liquidity.tolerance = true ∨ ∀ d, 0.0 < Scalar.abs (r.extreme d)) :
    Pool.MarkExtremes bars r bias liquidity := by
  have hmarks : ∀ d, ∃ p, Pool.ofRange? bars r bias liquidity d = some p ∧
      p.Marks bars r bias liquidity.tolerance d := by
    intro d
    obtain ⟨b, hb, hextreme⟩ := h.attained d
    have hwindow := h.base_suffix.subset hb
    have hmem : b ∈ bars := List.mem_of_mem_take (List.mem_of_mem_drop hwindow)
    have hfinite_extreme : Scalar.isFinite (r.extreme d) = true := hextreme ▸ hfinite b hmem d
    have hnear := near_self hfinite_extreme ht (hshare.imp_right (· d))
    exact Pool.exists_ofRange? hwindow (hextreme ▸ hnear)
  obtain ⟨above, habove, hmarks_above⟩ := hmarks .bullish
  obtain ⟨below, hbelow, hmarks_below⟩ := hmarks .bearish
  refine ⟨above, below, ?_, hmarks_above, hmarks_below⟩
  rw [Pool.rangeExtremes, List.filterMap_cons_some habove, List.filterMap_cons_some hbelow,
    List.filterMap_nil]

/-- Whether an outcome of the search for a range is right: too few bars are reported with their number,
those without a width as having no range, and all others have a range that is maximal, with a pool at
each extreme. An infinite tolerance is no share of an extreme that is zero, so that it leaves out its
pool. -/
structure Settled (bars : List (Bar Float)) (settings : RangeSettings)
    (outcome : Except Shortfall (TradingRange Float)) : Prop where
  short_iff : outcome = .error (.bars "range" (settings.least + 1) bars.length) ↔
    bars.length < settings.least + 1
  flat_iff : outcome = .error (.range "range") ↔
    settings.least + 1 ≤ bars.length ∧ Flat (base bars settings.least)
  exists_maximal : settings.least + 1 ≤ bars.length → ¬Flat (base bars settings.least) →
    ∃ r, outcome = .ok r ∧ r.Maximal bars settings ∧
      ∀ (bias : Bias) (liquidity : LiquiditySettings Float), 0.0 ≤ liquidity.tolerance →
        (Scalar.isFinite liquidity.tolerance = true ∨ ∀ d, 0.0 < Scalar.abs (r.extreme d)) →
        Pool.MarkExtremes bars r bias liquidity

theorem settled_detect (hfinite : ∀ b ∈ bars, ∀ d, Scalar.isFinite (b.extreme d) = true)
    (settings : RangeSettings) : Settled bars settings (detect bars settings) := by
  rcases Nat.lt_or_ge bars.length (settings.least + 1) with hshort | henough
  · have hdetect := detect_eq_short hshort
    refine ⟨iff_of_true hdetect hshort, iff_of_false ?_ ?_, ?_⟩
    · rw [hdetect]
      nofun
    · exact fun h => absurd h.1 (Nat.not_le.2 hshort)
    · exact fun h => absurd h (Nat.not_le.2 hshort)
  by_cases hflat : Flat (base bars settings.least)
  · have hdetect := detect_eq_flat hfinite henough hflat
    refine ⟨iff_of_false ?_ (Nat.not_lt.2 henough), iff_of_true hdetect ⟨henough, hflat⟩, ?_⟩
    · rw [hdetect]
      nofun
    · exact fun _ hwide => absurd hflat hwide
  · obtain ⟨r, hdetect, hmaximal⟩ := exists_maximal hfinite henough hflat
    refine ⟨iff_of_false ?_ (Nat.not_lt.2 henough), iff_of_false ?_ fun h => hflat h.2,
      fun _ _ => ⟨r, hdetect, hmaximal, fun bias liquidity => ?_⟩⟩
    · rw [hdetect]
      nofun
    · rw [hdetect]
      nofun
    · exact hmaximal.markExtremes hfinite bias

/-- **The active range is a longest stretch.** The search in bars with finite extremes has the right
outcome, unless the least number of bars and the latest one more do not fit a word. -/
theorem detect_maximal (hfinite : ∀ b ∈ bars, ∀ d, Scalar.isFinite (b.extreme d) = true)
    (settings : RangeSettings) (hcount : settings.least + 1 < pow2 64) :
    ∃ outcome, detect? bars settings = some outcome ∧ Settled bars settings outcome :=
  ⟨detect bars settings, if_pos hcount, settled_detect hfinite settings⟩

/-- Four bars about one price, the first of which reaches below the others, and the latest one. -/
def steadyBars : List (Bar Float) :=
  [(10.0, 5.0), (12.0, 8.0), (11.0, 9.0), (12.0, 8.0), (11.0, 10.0)].zipIdx.map
    fun ((high, low), i) =>
      { time := .ofSeconds (60 * i)
        opening := low
        high := high
        low := low
        close := high
        volume := 100.0 }

theorem isFinite_steadyBars : ∀ b ∈ steadyBars, ∀ d, Scalar.isFinite (b.extreme d) = true :=
  IsClean.isFinite_extreme ⟨by decide, by decide⟩

theorem detect_maximal_steady :
    (∀ b ∈ steadyBars, ∀ d, Scalar.isFinite (b.extreme d) = true) ∧
      RangeSettings.least ⟨2, 50⟩ + 1 < pow2 64 ∧
      ∃ r, detect? steadyBars ⟨2, 50⟩ = some (.ok r) ∧ r.Maximal steadyBars ⟨2, 50⟩ ∧
        ∀ bias, Pool.MarkExtremes steadyBars r bias .standard := by
  have hcount : RangeSettings.least ⟨2, 50⟩ + 1 < pow2 64 := by decide
  have hwide : ¬Flat (base steadyBars (RangeSettings.least ⟨2, 50⟩)) := by
    rw [Flat]
    decide +kernel
  obtain ⟨outcome, hdetect, hsettled⟩ := detect_maximal isFinite_steadyBars ⟨2, 50⟩ hcount
  obtain ⟨r, rfl, hmaximal, hpools⟩ := hsettled.exists_maximal (by decide) hwide
  exact ⟨isFinite_steadyBars, hcount, r, hdetect, hmaximal,
    fun bias => hpools bias .standard (by decide) (.inl (by decide))⟩

/-- Two bars that reach down to zero. -/
def groundedBars : List (Bar Float) :=
  [2.0, 1.0].zipIdx.map fun (high, i) => ⟨.ofSeconds (60 * i), 0.0, high, 0.0, high, 100.0⟩

theorem isFinite_groundedBars :
    ∀ b ∈ groundedBars, ∀ d, Scalar.isFinite (b.extreme d) = true :=
  IsClean.isFinite_extreme ⟨by decide, by decide⟩

/-- Settings whose tolerance is infinite. -/
def boundless : LiquiditySettings Float :=
  { LiquiditySettings.standard with tolerance := 1.0 / 0.0 }

/-- The search has no outcome where one bar more than the least number does not fit a word, and an
infinite tolerance leaves out an extreme that is zero. -/
theorem not_detect_maximal_boundless :
    (∀ b ∈ steadyBars, ∀ d, Scalar.isFinite (b.extreme d) = true) ∧ pow2 64 - 1 < pow2 64 ∧
      (¬∃ outcome, detect? steadyBars ⟨pow2 64 - 1, 50⟩ = some outcome ∧
        Settled steadyBars ⟨pow2 64 - 1, 50⟩ outcome) ∧
      (∀ b ∈ groundedBars, ∀ d, Scalar.isFinite (b.extreme d) = true) ∧
      0.0 ≤ boundless.tolerance ∧
      ∃ r, detect? groundedBars ⟨1, 50⟩ = some (.ok r) ∧
        ¬Pool.MarkExtremes groundedBars r .neutral boundless := by
  refine ⟨isFinite_steadyBars, by decide, ?_, isFinite_groundedBars, by decide, ?_⟩
  · rintro ⟨outcome, hdetect, -⟩
    rw [detect?, if_neg (by decide)] at hdetect
    cases hdetect
  have hwide : ¬Flat (base groundedBars (RangeSettings.least ⟨1, 50⟩)) := by
    rw [Flat]
    decide
  obtain ⟨r, hdetect, hmaximal, -⟩ :=
    (settled_detect isFinite_groundedBars ⟨1, 50⟩).exists_maximal (by decide) hwide
  refine ⟨r, by rw [detect?, if_pos (by decide), hdetect], ?_⟩
  have hground : ∀ b ∈ groundedBars, b.extreme .bearish = 0.0 := by
    simp [groundedBars, Bar.extreme]
  obtain ⟨b, hb, hlow⟩ := hmaximal.attained .bearish
  have hzero : r.extreme .bearish = 0.0 :=
    hlow.symm.trans (hground b (List.mem_of_mem_dropLast (List.mem_of_mem_drop hb)))
  -- a bar that touches the lower extreme would be near zero
  rintro ⟨above, below, -, -, hbelow⟩
  obtain ⟨-, c, hc, hnear⟩ := hbelow.first.1
  rw [hzero, hground c (List.mem_of_getElem? hc)] at hnear
  exact absurd hnear (by decide)

end TradingRange

end PriceAction
