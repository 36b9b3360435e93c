import PriceAction.Proofs.Indexed.Liquidity
import PriceAction.Proofs.Indexed.Report
import PriceAction.Proofs.Indexed.Structure
import PriceAction.Snapshot.Limits

/-!
# The analysis by position

The whole analysis of a market with every read, every slice and every difference of positions made
explicit. With settings of moderate size none of them fails, and whatever the analysis places at a
bar lies in the series and is dated by that bar (`Market.analyze_inBounds`).
-/

namespace PriceAction

variable {α : Type} [Scalar α]

/-- Whether the settings that positions are calculated with are of moderate size. -/
structure Settings.Moderate (settings : Settings α) : Prop where
  window : settings.swing.window ≤ 2 ^ 32
  volatilityPeriod : settings.structural.volatilityPeriod ≤ 2 ^ 32
  lookback : settings.structural.lookback ≤ 2 ^ 32
  leastBars : settings.range.leastBars ≤ 2 ^ 32
  zoneLookback : settings.zones.lookback ≤ 2 ^ 32

namespace Indexed

/-! ## The decision -/

/-- The latest bar outside the daily range; the latest bars are read from the newest on. -/
def excursion? (view : ScenarioView α) (settings : ScenarioSettings) (range : DailyRange α) :
    Option (Option (Nat × Direction × α)) :=
  let first := view.bars.length - max settings.sweepBars 1
  search? view.bars
    (fun i bar =>
      if range.high < bar.high then some (i, .bearish, bar.high)
      else if bar.low < range.low then some (i, .bullish, bar.low)
      else none)
    (List.range' first (view.bars.length - first)).reverse

def latest? (bars : List (Bar α)) : Option (Bar α) := do
  let place ← minus? bars.length 1
  bars[place]?

def reversalWalk? (view : ScenarioView α) (settings : ScenarioSettings) : Option (Walk α) :=
  match view.context.dailyRange with
  | none => some (.blocked 0 .noHigherRange [Scenario.failed .noHigherRange] [])
  | some range => do
    let levels : List (KeyLevel α) := [⟨"htf_high", range.high⟩, ⟨"htf_low", range.low⟩]
    let reasons := ["higher-timeframe range " ++ Scalar.hundredths range.low ++ "-" ++
      Scalar.hundredths range.high]
    match ← excursion? view settings range with
    | none =>
      some (.blocked 1 .noHigherSweep (reasons ++ [Scenario.failed .noHigherSweep]) levels)
    | some (first, d, extreme) => do
      let levels := levels ++ [⟨"swept_extreme", extreme⟩]
      let reasons := reasons ++
        ["swept higher-timeframe " ++ Scenario.sweptSide d ++ " at " ++ Scalar.hundredths extreme]
      let last ← latest? view.bars
      if range.contains last.close then
        some (Scenario.confirmReversal view d (Scenario.confirmation? view d first)
          (reasons ++ ["closed back inside at " ++ Scalar.hundredths last.close]) levels)
      else some (.blocked 2 .notBackInside (reasons ++ [Scenario.failed .notBackInside]) levels)

def continuationWalk? (view : ScenarioView α) : Option (Walk α) := do
  let last ← latest? view.bars
  some (Scenario.continuationWalk view last)

def decision? (view : ScenarioView α) (settings : ScenarioSettings) : Option (Decision α) :=
  if view.bars.isEmpty then some (.unclear .noBars 0.0 [Obstacle.noBars.message] [])
  else do
    let reversal ← reversalWalk? view settings
    let continuation ← continuationWalk? view
    some (match reversal, continuation with
      | .reached d confidence reasons levels, _ =>
        Scenario.decided .sweepReversal d confidence reasons levels
      | .blocked _ _ _ _, .reached d confidence reasons levels =>
        Scenario.decided .trendContinuation d confidence reasons levels
      | .blocked passed o reasons levels, .blocked passed' o' reasons' levels' =>
        if passed' ≤ passed then Scenario.undecided .sweepReversal passed o reasons levels
        else Scenario.undecided .trendContinuation passed' o' reasons' levels')

/-! ## The market -/

/-- Sanitizes the bars and cuts off those before the lookback. -/
def prepare? (bars : List (Bar α)) (lookback : Nat) : Option (Sanitized α) := do
  let s := sanitize bars
  if lookback < s.clean.length then do
    let excess ← minus? s.clean.length lookback
    let kept ← slice? s.clean excess s.clean.length
    some { s with clean := kept }
  else some s

/-- The signal of the last break of a series, if it is recent. -/
def signal? (tf : Timeframe) (bars : List (Bar α)) (settings : Settings α) :
    Option (Option MicroSignal) := do
  let structural ← structure? bars settings
  match structural.breaks.getLast? with
  | none => some none
  | some e => do
    let count ← plus? 1 e.barIndex
    some (if bars.length - count < settings.scenario.microBars then
      some ⟨tf, e.kind, e.direction, e.time⟩
    else none)

def microSignal? (m : Market α) (settings : Settings α) : Option (Option MicroSignal) :=
  match m.microTimeframe? with
  | none => some none
  | some tf =>
    match m.series.get? tf.label with
    | none => some none
    | some supplied => do
      let input ← prepare? supplied settings.structural.lookback
      signal? tf input.clean settings

def analyze? (m : Market α) (settings : Settings α) : Option (Analysis α) := do
  let input ← prepare? (m.primaryBars?.getD []) settings.structural.lookback
  let bars := input.clean
  let last := bars.getLast?
  let (context, derived) := m.resolveContext (last.map fun b => m.closeOf b.time)
  let structural ← structure? bars settings
  let liquidity ← liquidity? bars structural context settings.liquidity
  let zones ← zones?
    { bars := bars
      structural := structural
      liquidity := liquidity
      timeframe := m.primary
      settings := settings.zones }
  let decision ← decision?
    { bars := bars
      structural := structural
      liquidity := liquidity
      zones := zones
      context := context }
    settings.scenario
  let micro ← microSignal? m settings
  some
    { structural := structural
      liquidity := liquidity
      zones := zones
      decision := decision
      details :=
        { symbol := m.symbol
          primary := m.primary
          lastPrice := last.map (·.close)
          windowStart := bars.head?.map (·.time)
          windowStop := last.map (·.time)
          barCount := bars.length
          rejected := input.rejected
          dailyRangeDerived := derived
          micro := micro
          shortfalls := if m.primaryBars?.isNone then [.series m.primary.label] else [] } }

/-! ## Agreement -/

theorem excursion?_eq (view : ScenarioView α) (settings : ScenarioSettings)
    (range : DailyRange α) :
    excursion? view settings range = some (Scenario.excursion? view settings range) := by
  rw [excursion?, Scenario.excursion?]
  dsimp only
  rw [← map_snd_drop_zipIdx, ← List.map_reverse, search?_eq_findSome?]
  intro p hp
  exact getElem?_of_mem_zipIdx (List.mem_of_mem_drop (List.mem_reverse.1 hp))

omit [Scalar α] in
theorem latest?_eq {bars : List (Bar α)} {last : Bar α} (h : bars.getLast? = some last) :
    latest? bars = some last := by
  have hne : bars ≠ [] := by
    rintro rfl
    cases h
  rw [List.getLast?_eq_getElem?] at h
  rw [latest?, minus?_eq (List.length_pos_iff.2 hne)]
  exact h

theorem reversalWalk?_eq {view : ScenarioView α} {last : Bar α}
    (h : view.bars.getLast? = some last) (settings : ScenarioSettings) :
    reversalWalk? view settings = some (Scenario.reversalWalk view settings last) := by
  rw [reversalWalk?, Scenario.reversalWalk]
  cases view.context.dailyRange with
  | none => rfl
  | some range =>
    dsimp only
    rw [excursion?_eq]
    simp only [Option.bind_eq_bind, Option.bind_some]
    cases Scenario.excursion? view settings range with
    | none => rfl
    | some found =>
      obtain ⟨first, d, extreme⟩ := found
      dsimp only
      rw [latest?_eq h, Option.bind_some]
      split <;> rfl

theorem decision?_eq (view : ScenarioView α) (settings : ScenarioSettings) :
    decision? view settings = some (Scenario.classify view settings) := by
  rw [decision?, Scenario.classify]
  cases h : view.bars.getLast? with
  | none =>
    rw [List.getLast?_eq_none_iff.1 h]
    rfl
  | some last =>
    have hne : ¬view.bars.isEmpty = true := by
      rw [List.isEmpty_iff]
      intro hnil
      rw [hnil] at h
      cases h
    rw [if_neg hne, reversalWalk?_eq h, continuationWalk?, latest?_eq h]
    rfl

theorem prepare?_eq (bars : List (Bar α)) (lookback : Nat) :
    prepare? bars lookback = some (prepare bars lookback) := by
  rw [prepare?, prepare]
  split
  · rw [minus?_eq (by omega)]
    simp only [Option.bind_eq_bind, Option.bind_some]
    rw [slice?_eq_drop (Nat.sub_le ..)]
    rfl
  · next h =>
    rw [Nat.sub_eq_zero_of_le (by omega), List.drop_zero]

theorem length_prepare_le (bars : List (Bar α)) (lookback : Nat) :
    (prepare bars lookback).clean.length ≤ lookback := by
  rw [prepare, List.length_drop]
  omega

section

variable {settings : Settings α} (hlookback : settings.structural.lookback ≤ 2 ^ 32)

include hlookback

theorem microSignal?_eq (hcount : settings.Countable) (m : Market α) :
    microSignal? m settings = some (m.microSignal? settings) := by
  rw [microSignal?, Market.microSignal?]
  cases m.microTimeframe? with
  | none => rfl
  | some tf =>
    simp only [Option.bind_eq_bind, Option.bind_some]
    cases m.series.get? tf.label with
    | none => rfl
    | some supplied =>
      have hbars := (length_prepare_le supplied settings.structural.lookback).trans hlookback
      simp only [Option.bind_some]
      rw [prepare?_eq, Option.bind_some, signal?, structure?_eq_of_countable hbars hcount]
      simp only [Option.bind_eq_bind, Option.bind_some]
      cases hlast : (Structure.analyze (prepare supplied settings.structural.lookback).clean
          settings).breaks.getLast? with
      | none => rfl
      | some e =>
        have he := ((Structure.coherent_analyze _ settings).breaks e
          (List.mem_of_getLast? hlast)).lt_length
        simp only [Option.bind_some]
        rw [plus?_eq (by omega)]
        rfl

/-- The words fail exactly where the settings call for more bars than a word can count. -/
theorem analyze?_eq (m : Market α) :
    analyze? m settings =
      if settings.Countable ∧ (m.analyze settings).zones.Countable settings.zones.lookback then
        some (m.analyze settings)
      else none := by
  have hbars := (length_prepare_le (m.primaryBars?.getD []) settings.structural.lookback).trans
    hlookback
  have hcoherent := Structure.coherent_analyze
    (prepare (m.primaryBars?.getD []) settings.structural.lookback).clean settings
  rw [analyze?, prepare?_eq]
  simp only [Option.bind_eq_bind, Option.bind_some]
  rw [structure?_eq hbars, Structure.analyze?]
  by_cases hcount : settings.Countable
  · rw [if_pos hcount, Option.bind_some, liquidity?_eq hbars hcoherent, Option.bind_some,
      zones?_eq hbars hcoherent.breaks]
    show Option.bind (if (m.analyze settings).zones.Countable settings.zones.lookback then
      some (m.analyze settings).zones else none) _ = _
    by_cases hzones : (m.analyze settings).zones.Countable settings.zones.lookback
    · have hboth := And.intro hcount hzones
      rw [if_pos hzones, if_pos hboth, Option.bind_some, decision?_eq, Option.bind_some,
        microSignal?_eq hlookback hcount]
      rfl
    · have hnot := not_and_of_not_right settings.Countable hzones
      rw [if_neg hzones, if_neg hnot]
      rfl
  · have hnot := not_and_of_not_left ((m.analyze settings).zones.Countable settings.zones.lookback)
      hcount
    rw [if_neg hcount, if_neg hnot]
    rfl

end

end Indexed

/-! ## References -/

/-- Whether everything that an analysis places at a bar lies in the series and has the time of its
bar. -/
structure Analysis.Coherent (bars : List (Bar α)) (a : Analysis α) : Prop where
  structural : a.structural.Coherent bars
  pools : ∀ p ∈ a.liquidity.pools, p.Coherent bars a.structural.bias
  sweeps : ∀ s ∈ a.liquidity.sweeps, s.Coherent bars
  wickClusters : ∀ c ∈ a.liquidity.wickClusters, c.Coherent bars
  zones : ∀ z ∈ a.zones.all, Dated bars z.originIndex z.originTime

namespace Market

theorem coherent_analyze (m : Market α) (settings : Settings α) :
    (m.analyze settings).Coherent (m.prepared settings).clean := by
  have hstructural := Structure.coherent_analyze (m.prepared settings).clean settings
  exact
    { structural := hstructural
      pools := fun p hp => Liquidity.coherent_of_mem_pools hstructural hp
      sweeps := fun s hs => Sweep.coherent_of_mem_detect hs
      wickClusters := fun c hc => Pool.coherent_of_mem_wickClusters hc
      zones := fun z hz => (Zone.coherent_of_mem_all hstructural.breaks hz).origin }

/-- Within the calendar, a market has the analysis that it has in words, and none where these fail. -/
theorem analyze?_eq_indexed (m : Market α) {settings : Settings α}
    (hlookback : settings.structural.lookback ≤ 2 ^ 32) :
    m.analyze? settings =
      if m.analysisFits settings then Indexed.analyze? m settings else none := by
  rw [Indexed.analyze?_eq hlookback, analyze?]
  simp only [ite_and]

theorem countable_of_moderate (m : Market α) {settings : Settings α} (h : settings.Moderate) :
    settings.Countable ∧ (m.analyze settings).zones.Countable settings.zones.lookback := by
  obtain ⟨hwindow, hperiod, hlookback, hleast, hzones⟩ := h
  have hbars : (m.prepared settings).clean.length ≤ 2 ^ 32 :=
    (Indexed.length_prepare_le _ _).trans hlookback
  have hword := Indexed.pow2_word
  refine ⟨⟨by omega, by omega, by omega⟩, ZoneReport.countable_analyze ?_ ?_⟩
  · exact (Structure.coherent_analyze (m.prepared settings).clean settings).breaks
  · exact (Nat.add_le_add hbars hzones).trans (by decide)

/-- **No read leaves the series.** With settings of moderate size the analysis by position gives
what the analysis gives: no position, stretch or difference of positions fails on the way. Whatever
the analysis places at a bar lies in the series and has the time of that bar, pools are touched in
order, and the range ends one bar before the latest. -/
theorem analyze_inBounds (m : Market α) {settings : Settings α} (h : settings.Moderate) :
    Indexed.analyze? m settings = some (m.analyze settings) ∧
      (m.analyze settings).Coherent (m.prepared settings).clean :=
  ⟨(Indexed.analyze?_eq h.lookback m).trans (if_pos (countable_of_moderate m h)),
    coherent_analyze m settings⟩

/-- A market of one series. -/
def turningMarket : Market Float where
  symbol := "EURUSD"
  primary := ⟨"1m"⟩
  series := .ofList [("1m", turningBars)]
  context := {}

theorem analyze_inBounds_turning :
    turningSettings.Moderate ∧
      (turningMarket.analyze turningSettings).structural.breaks.map (·.barIndex) = [4, 6, 7, 8] ∧
      (turningMarket.analyze turningSettings).structural.activeRange.map
        (fun r => (r.startIndex, r.stopIndex)) = some (0, 8) ∧
      Indexed.analyze? turningMarket turningSettings =
        some (turningMarket.analyze turningSettings) ∧
      (turningMarket.analyze turningSettings).Coherent
        (turningMarket.prepared turningSettings).clean := by
  have hmoderate : turningSettings.Moderate := by
    constructor <;> decide
  exact ⟨hmoderate, by decide +kernel, by decide +kernel,
    analyze_inBounds turningMarket hmoderate⟩

end Market

end PriceAction
