import PriceAction.Liquidity.State
import PriceAction.Proofs.Liquidity.Range
import PriceAction.Proofs.Search
import PriceAction.Settings.Validation

/-!
# How a manipulation fades

A bar that trades through an extreme of the active range with a strong wick makes the phase a
manipulation (`Phase.classify_eq_manipulation_iff`). The range is the stretch of bars just before
the latest one, and no bar of it leaves it. So of the recent bars only the latest one, and those
from before the range, can sweep it (`Liquidity.phaseOf_eq_manipulation_iff`); and with the next bar
the one that swept has become a part of the range, and its wick an extreme of it
(`Liquidity.phaseOf_concat`).
-/

namespace PriceAction

/-! ## Sweeps of a range -/

namespace TradingRange

section Definitions

variable {α : Type} [Scalar α]

/-- Whether a bar trades through the extreme of a range on a side, closes at or inside it, and has a
wick there that makes up a strong share of the bar. -/
@[mk_iff]
structure SweptBy (r : TradingRange α) (strong : α) (side : Direction) (b : Bar α) : Prop where
  wide : ¬b.range ≤ 0.0
  beyond : side.beyond (b.extreme side) (r.extreme side) = true
  inside : side.beyond b.close (r.extreme side) = false
  strong : strong ≤ b.wick side / b.range

instance (r : TradingRange α) (b : Bar α) : Decidable (r.Holds b) :=
  inferInstanceAs (Decidable (_ ∧ _))

instance (r : TradingRange α) (strong : α) (side : Direction) (b : Bar α) :
    Decidable (r.SweptBy strong side b) :=
  decidable_of_iff' _ (sweptBy_iff ..)

end Definitions

section Lawful

variable {α : Type} [Scalar α] [LawfulScalar α] {r r' : TradingRange α} {strong : α}
  {side : Direction} {b b' : Bar α}

theorem Holds.not_beyond (h : r.Holds b) (side : Direction) :
    side.beyond (b.extreme side) (r.extreme side) = false := by
  cases side with
  | bullish =>
    exact decide_eq_false fun hlt => LawfulScalar.lt_irrefl _ (LawfulScalar.lt_of_lt_of_le hlt h.1)
  | bearish =>
    exact decide_eq_false fun hlt => LawfulScalar.lt_irrefl _ (LawfulScalar.lt_of_lt_of_le hlt h.2)

theorem Holds.not_sweptBy (h : r.Holds b) : ¬r.SweptBy strong side b := by
  intro hswept
  have hbeyond := hswept.beyond
  rw [h.not_beyond side] at hbeyond
  cases hbeyond

theorem SweptBy.low_lt_high (h : r.SweptBy strong side b) (hb : b.isWellFormed = true)
    (hr : Scalar.isFinite (r.extreme side) = true) : b.low < b.high := by
  have hclose : Scalar.isFinite b.close = true := (Bar.isFinite_prices hb).2.2.2
  have hoff : side.beyond (b.extreme side) b.close = true :=
    Direction.beyond_of_not_beyond hr hclose h.beyond h.inside
  have hnear := Bar.not_close_beyond_extreme hb side.opposite
  rw [Direction.opposite_beyond] at hnear
  have hwide : side.beyond (b.extreme side) (b.extreme side.opposite) = true :=
    Direction.beyond_of_not_beyond hclose (Bar.isFinite_extreme hb _) hoff hnear
  cases side with
  | bullish => exact of_decide_eq_true hwide
  | bearish => exact of_decide_eq_true hwide

/-- A bar that one range holds does not sweep another range on the side on which this one holds a
bar that swept the former. -/
theorem SweptBy.not_beyond_of_holds (h : r.SweptBy strong side b) (hb : b.isWellFormed = true)
    (hb' : b'.isWellFormed = true) (hr' : Scalar.isFinite (r'.extreme side) = true)
    (hholds : r'.Holds b) (hholds' : r.Holds b') :
    side.beyond (b'.extreme side) (r'.extreme side) = false := by
  rw [Bool.eq_false_iff]
  intro hbeyond
  have hpast : side.beyond (b'.extreme side) (b.extreme side) = true :=
    Direction.beyond_of_not_beyond hr' (Bar.isFinite_extreme hb side) hbeyond (hholds.not_beyond side)
  have hout : side.beyond (b'.extreme side) (r.extreme side) = true :=
    Direction.beyond_of_beyond (Bar.isFinite_extreme hb side) (Bar.isFinite_extreme hb' side) h.beyond
      (Direction.not_beyond_of_beyond hpast)
  rw [hholds'.not_beyond side] at hout
  cases hout

end Lawful

end TradingRange

/-! ## The phase -/

namespace Phase

variable {α : Type} [Scalar α] {settings : LiquiditySettings α} {view : PhaseView α}
  {r : TradingRange α} {side : Direction} {b : Bar α} {i : Nat}

/-- A recent and strong sweep of a swing whose price is near an extreme of the range. -/
def SwingSwept (settings : LiquiditySettings α) (barCount : Nat) (sweeps : List (Sweep α))
    (r : TradingRange α) : Prop :=
  ∃ s ∈ sweeps, recentFrom barCount settings.recentBars ≤ s.barIndex ∧
    settings.strongWickShare ≤ s.wickRatio ∧
    near settings.tolerance s.level (r.extreme s.side) = true

theorem classify_eq_manipulation_iff : (classify settings view).1 = .manipulation ↔
    ∃ r ∈ view.structural.activeRange, (rangeSweep? settings view r).isSome = true := by
  have hreason : (manipulation? settings view).isSome = true ↔
      ∃ r ∈ view.structural.activeRange, (rangeSweep? settings view r).isSome = true := by
    rw [manipulation?, Option.isSome_map]
    cases view.structural.activeRange <;> simp
  rw [← hreason, classify]
  split <;> simp [*]

section Lawful

variable [LawfulScalar α] (hr : ∀ side, Scalar.isFinite (r.extreme side) = true)
include hr

theorem isSome_strongWick?_iff (hb : b.isWellFormed = true) :
    (strongWick? settings r side b).isSome = true ↔
      side.beyond (b.extreme side) (r.extreme side) = true ∧
        side.beyond b.close (r.extreme side) = false ∧
        settings.strongWickShare ≤ b.wick side / b.range := by
  have hclose : Scalar.isFinite b.close = true := (Bar.isFinite_prices hb).2.2.2
  cases side with
  | bullish =>
    simp [strongWick?, Direction.beyond, and_assoc,
      ← LawfulScalar.le_iff_not_lt hclose (hr .bullish)]
  | bearish =>
    simp [strongWick?, Direction.beyond, and_assoc,
      ← LawfulScalar.le_iff_not_lt (hr .bearish) hclose]

theorem isSome_barSweep?_iff (hb : b.isWellFormed = true) :
    (barSweep? settings r b i).isSome = true ↔
      ∃ side, r.SweptBy settings.strongWickShare side b := by
  rw [barSweep?]
  split
  · next hnarrow => exact iff_of_false nofun fun ⟨side, hswept⟩ => hswept.wide hnarrow
  · next hwide =>
    have hside (side : Direction) :
        ((strongWick? settings r side b).map fun ratio =>
          (⟨side, i, ratio⟩ : RangeSweep α)).isSome = true ↔
            r.SweptBy settings.strongWickShare side b := by
      rw [Option.isSome_map, isSome_strongWick?_iff hr hb]
      exact ⟨fun ⟨hbeyond, hinside, hstrong⟩ => ⟨hwide, hbeyond, hinside, hstrong⟩,
        fun h => ⟨h.beyond, h.inside, h.strong⟩⟩
    rw [List.findSome?_isSome_iff]
    simp only [hside]
    exact ⟨fun ⟨side, _, hswept⟩ => ⟨side, hswept⟩,
      fun ⟨side, hswept⟩ => ⟨side, by cases side <;> simp, hswept⟩⟩

theorem isSome_rangeSweep?_iff (hbars : ∀ b ∈ view.bars, b.isWellFormed = true) :
    (rangeSweep? settings view r).isSome = true ↔
      (∃ i b side, recentFrom view.bars.length settings.recentBars ≤ i ∧ view.bars[i]? = some b ∧
        r.SweptBy settings.strongWickShare side b) ∨
      SwingSwept settings view.bars.length view.sweeps r := by
  rw [rangeSweep?, Option.isSome_or, Bool.or_eq_true, Option.isSome_map, List.find?_isSome]
  refine or_congr ?_ ?_
  · rw [List.findSome?_isSome_iff]
    constructor
    · rintro ⟨⟨b, i⟩, hmem, hsome⟩
      obtain ⟨hrecent, hb⟩ := mem_drop_zipIdx.1 (List.mem_reverse.1 hmem)
      obtain ⟨side, hswept⟩ :=
        (isSome_barSweep?_iff hr (hbars b (List.mem_of_getElem? hb))).1 hsome
      exact ⟨i, b, side, hrecent, hb, hswept⟩
    · rintro ⟨i, b, side, hrecent, hb, hswept⟩
      exact ⟨(b, i), List.mem_reverse.2 (mem_drop_zipIdx.2 ⟨hrecent, hb⟩),
        (isSome_barSweep?_iff hr (hbars b (List.mem_of_getElem? hb))).2 ⟨side, hswept⟩⟩
  · simp [SwingSwept, and_assoc]

end Lawful

end Phase

/-! ## The phase of a series -/

namespace TradingRange

variable {bars : List (Bar Float)} {settings : RangeSettings} {r : TradingRange Float}

theorem Maximal.lt_startIndex_or_eq (h : r.Maximal bars settings) {i : Nat} {b : Bar Float}
    (hb : bars[i]? = some b) (hout : ¬r.Holds b) : i < r.startIndex ∨ i + 1 = bars.length := by
  by_contra hin
  rw [not_or, Nat.not_lt] at hin
  have hlt := (List.getElem?_eq_some_iff.1 hb).1
  have hplaced := h.placed.stopIndex_eq
  have hmem : (b, i) ∈ (r.window bars).zipIdx r.startIndex :=
    Pool.mem_window_zipIdx_iff.2 ⟨⟨hin.1, by omega⟩, hb⟩
  exact hout (h.holds b (List.fst_mem_of_mem_zipIdx hmem))

end TradingRange

namespace Phase

/-- Whether a recent bar from before the range sweeps it. -/
def SweptBefore {α : Type} [Scalar α] (settings : LiquiditySettings α) (bars : List (Bar α))
    (r : TradingRange α) : Prop :=
  ∃ i b side, recentFrom bars.length settings.recentBars ≤ i ∧ i < r.startIndex ∧
    bars[i]? = some b ∧ r.SweptBy settings.strongWickShare side b

theorem not_sweptBefore {settings : LiquiditySettings Float} {range : RangeSettings}
    {bars : List (Bar Float)} {r : TradingRange Float} (h : r.Maximal bars range)
    (hrecent : settings.recentBars ≤ range.least + 1) : ¬SweptBefore settings bars r := by
  rintro ⟨i, b, side, hfrom, hbefore, -⟩
  have hplaced := h.placed.stopIndex_eq
  have hstart := h.placed.startIndex_le
  have hcount : range.least ≤ r.stopIndex - r.startIndex + 1 := h.barCount_mem.1
  rw [recentFrom] at hfrom
  omega

end Phase

namespace Liquidity

open TradingRange Phase

/-- The phase of a series. -/
def phaseOf {α : Type} [Scalar α] (settings : Settings α) (context : MarketContext α)
    (bars : List (Bar α)) : Phase :=
  (analyze bars (Structure.analyze bars settings) context settings.liquidity).phase

variable {settings : Settings Float} {context : MarketContext Float}
  {bars earlier : List (Bar Float)} {b b' : Bar Float} {r : TradingRange Float} {d : Direction}

/-- No pool and no magnet decides whether the phase is a manipulation. -/
theorem phaseOf_eq_manipulation_iff_exists {α : Type} [Scalar α] {settings : Settings α}
    {context : MarketContext α} {bars : List (Bar α)} :
    phaseOf settings context bars = .manipulation ↔
      ∃ r ∈ (Structure.analyze bars settings).activeRange, (rangeSweep? settings.liquidity
        { bars := bars
          structural := Structure.analyze bars settings
          pools := []
          magnets := []
          sweeps := Sweep.detect bars (Structure.analyze bars settings).swings } r).isSome = true :=
  classify_eq_manipulation_iff

section ActiveRange

variable (hclean : IsClean bars)
  (hrange : (Structure.analyze bars settings).activeRange = some r)
include hclean hrange

theorem maximal_of_activeRange : r.Maximal bars settings.range :=
  maximal_of_detect hclean.isFinite_extreme (Structure.detect_of_activeRange hrange)

theorem isFinite_extreme_of_activeRange (d : Direction) : Scalar.isFinite (r.extreme d) = true :=
  (maximal_of_activeRange hclean hrange).isFinite_extreme hclean.isFinite_extreme d

/-- Of the bars that sweep the range, the phase sees the latest one and recent ones from before the
range. -/
theorem phaseOf_eq_manipulation_iff :
    phaseOf settings context bars = .manipulation ↔
      (∃ side, ∃ latest ∈ bars.getLast?, r.SweptBy settings.liquidity.strongWickShare side latest) ∨
      SweptBefore settings.liquidity bars r ∨
      SwingSwept settings.liquidity bars.length
        (Sweep.detect bars (Structure.analyze bars settings).swings) r := by
  have hmaximal := maximal_of_activeRange hclean hrange
  rw [phaseOf_eq_manipulation_iff_exists]
  simp only [hrange, Option.mem_some_iff, exists_eq_left']
  rw [isSome_rangeSweep?_iff (isFinite_extreme_of_activeRange hclean hrange) hclean.wellFormed,
    ← or_assoc]
  refine or_congr_left ?_
  constructor
  · rintro ⟨i, b, side, hrecent, hb, hswept⟩
    rcases hmaximal.lt_startIndex_or_eq hb fun hholds => hholds.not_sweptBy hswept with
      hbefore | hlast
    · exact .inr ⟨i, b, side, hrecent, hbefore, hb, hswept⟩
    · refine .inl ⟨side, b, ?_, hswept⟩
      rw [Option.mem_def, List.getLast?_eq_getElem?, ← hlast, Nat.add_sub_cancel]
      exact hb
  · rintro (⟨side, latest, hlatest, hswept⟩ | ⟨i, b, side, hrecent, -, hb, hswept⟩)
    · rw [Option.mem_def, List.getLast?_eq_getElem?] at hlatest
      exact ⟨bars.length - 1, latest, side, Nat.sub_le_sub_left (Nat.le_max_right ..) _, hlatest,
        hswept⟩
    · exact ⟨i, b, side, hrecent, hb, hswept⟩

end ActiveRange

/-- The bar that swept a range belongs to the next one. -/
theorem exists_activeRange_holds (hclean : IsClean (earlier ++ [b, b']))
    (hrange : (Structure.analyze (earlier ++ [b]) settings).activeRange = some r)
    (hswept : r.SweptBy settings.liquidity.strongWickShare d b) :
    ∃ r', (Structure.analyze (earlier ++ [b, b']) settings).activeRange = some r' ∧ r'.Holds b := by
  have hsplit : earlier ++ [b, b'] = (earlier ++ [b]) ++ [b'] := by simp
  have hmaximal := maximal_of_activeRange (hclean.sublist (by simp)) hrange
  have henough : settings.range.least ≤ earlier.length := by
    have hlength := hmaximal.length_base
    rw [base_concat, List.length_drop] at hlength
    omega
  have hbase : b ∈ base (earlier ++ [b, b']) settings.range.least := by
    have hpos : 1 ≤ settings.range.least := Nat.le_max_right ..
    rw [hsplit, base_concat, List.length_append, List.length_singleton,
      List.drop_append_of_le_length (by omega)]
    exact List.mem_append_right _ (List.mem_singleton_self b)
  have hwide : ¬Flat (base (earlier ++ [b, b']) settings.range.least) := by
    intro hflat
    have hlt := hswept.low_lt_high (hclean.wellFormed b (by simp))
      (isFinite_extreme_of_activeRange (hclean.sublist (by simp)) hrange d)
    exact LawfulScalar.lt_irrefl _ (LawfulScalar.lt_of_lt_of_le hlt (hflat b hbase b hbase))
  obtain ⟨r', hdetect, hmaximal'⟩ :=
    exists_maximal hclean.isFinite_extreme (by simp; omega) hwide
  exact ⟨r', congrArg Except.toOption hdetect,
    hmaximal'.holds b (hmaximal'.base_suffix.subset hbase)⟩

/-- **A sweep of the range by a bar fades with the next bar.** A latest bar that sweeps the active
range makes the phase a manipulation. With one bar more, which stays within that range, there is an
active range that holds the bar that swept, so that this bar sweeps nothing any more: the phase is a
manipulation exactly if the new bar sweeps the other side, or a recent bar from before the range
sweeps it, or a recent sweep of a swing lies at one of its extremes. No bar from before the range is
recent unless more bars count as recent than its least number and one. -/
theorem phaseOf_concat (context : MarketContext Float) (hclean : IsClean (earlier ++ [b, b']))
    (hrange : (Structure.analyze (earlier ++ [b]) settings).activeRange = some r)
    (hswept : r.SweptBy settings.liquidity.strongWickShare d b) (hholds : r.Holds b') :
    phaseOf settings context (earlier ++ [b]) = .manipulation ∧
      ∃ r', (Structure.analyze (earlier ++ [b, b']) settings).activeRange = some r' ∧ r'.Holds b ∧
        (phaseOf settings context (earlier ++ [b, b']) = .manipulation ↔
          r'.SweptBy settings.liquidity.strongWickShare d.opposite b' ∨
          SweptBefore settings.liquidity (earlier ++ [b, b']) r' ∨
          SwingSwept settings.liquidity (earlier ++ [b, b']).length
            (Sweep.detect (earlier ++ [b, b'])
              (Structure.analyze (earlier ++ [b, b']) settings).swings) r') ∧
        (settings.liquidity.recentBars ≤ settings.range.least + 1 →
          ¬SweptBefore settings.liquidity (earlier ++ [b, b']) r') := by
  have hclean_before : IsClean (earlier ++ [b]) := hclean.sublist (by simp)
  refine ⟨(phaseOf_eq_manipulation_iff hclean_before hrange).2 (.inl ⟨d, b, by simp, hswept⟩), ?_⟩
  obtain ⟨r', hrange', hholds_b⟩ := exists_activeRange_holds hclean hrange hswept
  refine ⟨r', hrange', hholds_b, ?_, not_sweptBefore (maximal_of_activeRange hclean hrange')⟩
  rw [phaseOf_eq_manipulation_iff hclean hrange']
  refine or_congr_left ?_
  have hlast : (earlier ++ [b, b']).getLast? = some b' := by simp
  simp only [hlast, Option.mem_some_iff, exists_eq_left']
  refine ⟨fun ⟨side, hswept'⟩ => ?_, fun hswept' => ⟨d.opposite, hswept'⟩⟩
  by_cases hside : side = d
  · -- the sweep before has moved this extreme out of reach
    have hnot : d.beyond (b'.extreme d) (r'.extreme d) = false :=
      hswept.not_beyond_of_holds (hclean.wellFormed b (by simp)) (hclean.wellFormed b' (by simp))
        (isFinite_extreme_of_activeRange hclean hrange' d) hholds_b hholds
    have hbeyond := hside ▸ hswept'.beyond
    rw [hnot] at hbeyond
    cases hbeyond
  · exact Direction.eq_opposite_of_ne hside ▸ hswept'

/-- Eight bars of a range from 100 to 104. -/
def rangingBars : List (Bar Float) :=
  (List.range 8).map fun i => ⟨.ofSeconds (60 * (i : Nat)), 102.0, 104.0, 100.0, 102.0, 100.0⟩

/-- A bar that trades above the range and closes inside. -/
def overreachingBar : Bar Float := ⟨.ofSeconds 480, 102.0, 108.0, 101.5, 103.0, 100.0⟩

/-- A bar that stays inside the range. -/
def stayingBar : Bar Float := ⟨.ofSeconds 540, 102.0, 103.5, 101.0, 102.5, 100.0⟩

theorem isClean_fading : IsClean (rangingBars ++ [overreachingBar, stayingBar]) :=
  ⟨by decide, by decide⟩

theorem exists_range_fading :
    ∃ r ∈ (Structure.analyze (rangingBars ++ [overreachingBar]) Settings.standard).activeRange,
      r.SweptBy (Settings.standard : Settings Float).liquidity.strongWickShare .bullish
        overreachingBar ∧ r.Holds stayingBar := by
  decide +kernel

/-- Three bars count as recent, and yet the manipulation is over after one. -/
theorem not_manipulation_fading :
    IsClean (rangingBars ++ [overreachingBar, stayingBar]) ∧
      (Settings.standard : Settings Float).fault? = none ∧
      (Settings.standard : Settings Float).liquidity.recentBars = 3 ∧
      (∃ r ∈ (Structure.analyze (rangingBars ++ [overreachingBar]) Settings.standard).activeRange,
        r.SweptBy (Settings.standard : Settings Float).liquidity.strongWickShare .bullish
          overreachingBar ∧ r.Holds stayingBar) ∧
      phaseOf Settings.standard {} (rangingBars ++ [overreachingBar]) = .manipulation ∧
      phaseOf Settings.standard {} (rangingBars ++ [overreachingBar, stayingBar]) ≠
        .manipulation := by
  refine ⟨isClean_fading, by decide, by decide, exists_range_fading, by decide +kernel,
    ?_⟩
  rw [Ne, phaseOf_eq_manipulation_iff_exists]
  decide +kernel

theorem phaseOf_concat_fading :
    IsClean (rangingBars ++ [overreachingBar, stayingBar]) ∧
      ∃ r ∈ (Structure.analyze (rangingBars ++ [overreachingBar]) Settings.standard).activeRange,
        r.SweptBy (Settings.standard : Settings Float).liquidity.strongWickShare .bullish
          overreachingBar ∧ r.Holds stayingBar ∧
        phaseOf Settings.standard {} (rangingBars ++ [overreachingBar]) = .manipulation ∧
        ∃ r' ∈ (Structure.analyze (rangingBars ++ [overreachingBar, stayingBar])
            Settings.standard).activeRange,
          r'.Holds overreachingBar ∧ ¬SweptBefore (Settings.standard : Settings Float).liquidity
            (rangingBars ++ [overreachingBar, stayingBar]) r' := by
  obtain ⟨r, hrange, hswept, hholds⟩ := exists_range_fading
  obtain ⟨hphase, r', hrange', hholds', -, hbefore⟩ :=
    phaseOf_concat {} isClean_fading hrange hswept hholds
  exact ⟨isClean_fading, r, hrange, hswept, hholds, hphase, r', hrange', hholds',
    hbefore (by decide)⟩

end Liquidity

end PriceAction
