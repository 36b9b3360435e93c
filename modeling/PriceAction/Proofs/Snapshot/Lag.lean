import PriceAction.Proofs.Scenario.Gates
import PriceAction.Proofs.Structure.Dated
import PriceAction.Proofs.Structure.Window
import PriceAction.Snapshot.Analysis

/-!
# The lag of a structure

A swing is found only when the bars of its window after it are there, so the latest bars, as many as
the window, have no break (`Structure.barIndex_add_window_lt`). Whatever asks for a break among
fewer bars than these never has one: with such settings there is no break on the micro timeframe and
no change of character behind a reversal (`Market.analyze_lagged`).
-/

namespace PriceAction

variable {α : Type} [Scalar α]

/-! ## The latest bars have no break -/

namespace Structure

variable {bars : List (Bar α)} {settings : Settings α}

theorem index_add_window_lt {s : Swing α} (hs : s ∈ (analyze bars settings).swings) :
    s.index + settings.swing.window < bars.length :=
  (Swing.standsOut_of_mem_detect hs).1.lt_length

theorem barIndex_add_window_lt {e : Break α} (he : e ∈ (analyze bars settings).breaks) :
    e.barIndex + settings.swing.window < bars.length := by
  rw [breaks_analyze] at he
  split at he
  · obtain ⟨k, leg, -, hleg, -, -, hle⟩ := Break.within_of_mem he
    have hstop : leg.stop ∈ (analyze bars settings).swings :=
      (Leg.ends_mem_of_mem_ofSwings (List.mem_of_getElem? hleg)).2
    have hswing := index_add_window_lt hstop
    omega
  · cases he

end Structure

/-! ## Confirmations -/

omit [Scalar α] in
theorem StabilitySettings.requiredFor_of_micro {settings : StabilitySettings α} {o : Observation α}
    (h : o.micro = none) : settings.requiredFor o = max settings.confirmations 1 := by
  simp only [requiredFor, h, Nat.sub_zero]

theorem Market.microSignal?_eq_none (m : Market α) {settings : Settings α}
    (h : settings.scenario.microBars ≤ settings.swing.window) : m.microSignal? settings = none := by
  rw [Option.eq_none_iff_forall_not_mem]
  intro signal hsignal
  obtain ⟨tf, -, hsignal⟩ := Option.bind_eq_some_iff.1 hsignal
  obtain ⟨supplied, -, hsignal⟩ := Option.bind_eq_some_iff.1 hsignal
  obtain ⟨e, he, hsignal⟩ := Option.bind_eq_some_iff.1 hsignal
  have hlate := Structure.barIndex_add_window_lt (List.mem_of_getLast? he)
  have hrecent := (Option.ite_none_right_eq_some.1 hsignal).1
  omega

/-! ## Reversals -/

namespace Scenario

variable {view : ScenarioView α} {settings : ScenarioSettings} {last : Bar α} {d : Direction}
  {confidence : α} {reasons : List String} {levels : List (KeyLevel α)}

/-- What a walk to a reversal has found. -/
theorem of_reversalWalk
    (h : reversalWalk view settings last = .reached d confidence reasons levels) :
    ∃ range i b, Excursion view settings range i b ∧ Confirmed view d i ∧
      levels = [⟨"htf_high", range.high⟩, ⟨"htf_low", range.low⟩,
          ⟨"swept_extreme", b.extreme d.opposite⟩] ++
        ((confirmation? view d i).map fun e => ⟨"choch_level", e.price⟩).toList := by
  rw [reversalWalk] at h
  split at h
  · cases h
  next range hdaily =>
  dsimp only at h
  split at h
  · cases h
  next i d' extreme hsome =>
  obtain ⟨b, hout, rfl, rfl⟩ := (excursion?_eq_some_iff hdaily).1 hsome
  split at h
  · rcases confirmReversal_cases view (range.wayBack b) i _ _ with
      ⟨hconfirmed, -⟩ | ⟨-, _, _, hwalk⟩
    · rw [confirmReversal] at h
      dsimp only at h
      split at h
      · cases h
      · cases h
        exact ⟨range, i, b, hout, hconfirmed, rfl⟩
    · rw [hwalk] at h
      cases h
  · cases h

theorem exists_reversalWalk (h : (classify view settings).scenario = .sweepReversal) :
    ∃ last d confidence reasons, reversalWalk view settings last =
      .reached d confidence reasons (classify view settings).keyLevels := by
  rw [classify] at h ⊢
  cases hlast : view.bars.getLast? with
  | none => simp [hlast, Decision.unclear] at h
  | some last =>
    simp only [hlast] at h ⊢
    cases hwalk : reversalWalk view settings last with
    | reached d confidence reasons levels =>
      exact ⟨last, d, confidence, reasons, hwalk⟩
    | blocked passed o reasons levels =>
      simp only [hwalk] at h
      cases hwalk' : continuationWalk view last with
      | reached d' => simp [hwalk', decided] at h
      | blocked passed' o' =>
        -- an undecided view has no scenario, whichever came further
        simp only [hwalk'] at h
        split at h <;> cases h

/-- A reversal that no break can confirm rests on the manipulation. -/
theorem manipulation_of_sweepReversal
    (hlate : ∀ e ∈ view.structural.breaks, e.barIndex + max settings.sweepBars 1 < view.bars.length)
    (h : (classify view settings).scenario = .sweepReversal) :
    view.liquidity.phase = .manipulation ∧
      (classify view settings).keyLevels.map (·.name) = ["htf_high", "htf_low", "swept_extreme"] := by
  obtain ⟨last, d, confidence, reasons, hwalk⟩ := exists_reversalWalk h
  obtain ⟨range, i, b, hout, hconfirmed, hlevels⟩ := of_reversalWalk hwalk
  have hbefore : ∀ e ∈ view.structural.breaks, e.barIndex < i := by
    intro e he
    have hlt := hlate e he
    have hrecent := hout.recent
    omega
  have hnone : confirmation? view d i = none := by
    rw [confirmation?, List.find?_eq_none]
    intro e he
    have hlt := hbefore e (List.mem_reverse.1 he)
    simp [Nat.not_le_of_lt hlt]
  refine ⟨?_, ?_⟩
  · rcases confirmed_iff.1 hconfirmed with hsome | hphase
    · rw [hnone] at hsome
      cases hsome
    · exact hphase
  · rw [hlevels, hnone]
    rfl

end Scenario

/-! ## The analysis -/

namespace Market

/-- **A structure lags behind its bars by its window.** No break lies among the latest bars, as many
as the window has on each side of a pivot. So if the window reaches as far back as breaks of the
micro timeframe count, no snapshot has one, and every observation needs its confirmations in full;
and if it reaches as far back as sweeps count, every reversal is made in a manipulation and none by a
change of character. -/
theorem analyze_lagged (settings : Settings α) :
    (∀ bars : List (Bar α), ∀ e ∈ (Structure.analyze bars settings).breaks,
      e.barIndex + settings.swing.window < bars.length) ∧
    (settings.scenario.microBars ≤ settings.swing.window → ∀ m : Market α,
      (m.analyze settings).details.micro = none ∧
      ∀ o ∈ (m.analyze settings).observation?,
        settings.stability.requiredFor o = max settings.stability.confirmations 1) ∧
    (max settings.scenario.sweepBars 1 ≤ settings.swing.window → ∀ m : Market α,
      (m.analyze settings).decision.scenario = .sweepReversal →
        (m.analyze settings).liquidity.phase = .manipulation ∧
        (m.analyze settings).decision.keyLevels.map (·.name) =
          ["htf_high", "htf_low", "swept_extreme"]) := by
  refine ⟨fun bars e => Structure.barIndex_add_window_lt, fun hmicro m => ?_, fun hsweep m h => ?_⟩
  · have hnone : (m.analyze settings).details.micro = none := m.microSignal?_eq_none hmicro
    refine ⟨hnone, fun o ho => ?_⟩
    obtain ⟨t, -, rfl⟩ := Option.map_eq_some_iff.1 ho
    exact StabilitySettings.requiredFor_of_micro (congrArg (Option.map (·.direction)) hnone)
  · refine Scenario.manipulation_of_sweepReversal (fun e he => ?_) h
    have hlate := Structure.barIndex_add_window_lt he
    exact (Nat.add_le_add_left hsweep _).trans_lt hlate

/-- Settings under which neither a recent sweep nor a recent break can be confirmed by a break. -/
def laggedSettings : Settings Float :=
  { turningSettings with scenario := { sweepBars := 1, microBars := 1 } }

/-- Eight bars of a range, and one that trades above it. -/
def overreachingBars : List (Bar Float) :=
  (List.replicate 8 (102.0, 104.0, 100.0, 102.0) ++ [(102.0, 108.0, 101.5, 103.0)]).zipIdx.map
    fun ((opening, high, low, close), i) =>
      ⟨.ofSeconds (300 * (i : Nat)), opening, high, low, close, 100.0⟩

def laggedMarket : Market Float where
  symbol := "EURUSD"
  primary := ⟨"5m"⟩
  series := .ofList [("5m", overreachingBars), ("1m", turningBars)]
  context := { dailyRange := some ⟨105.0, 95.0⟩ }

/-- The last bar but one of the micro timeframe has a break, which is not recent enough. -/
theorem analyze_lagged_swept :
    laggedSettings.scenario.microBars ≤ laggedSettings.swing.window ∧
      max laggedSettings.scenario.sweepBars 1 ≤ laggedSettings.swing.window ∧
      laggedMarket.microTimeframe? = some ⟨"1m"⟩ ∧
      (Structure.analyze turningBars laggedSettings).breaks.map (·.barIndex) = [4, 6, 7, 8] ∧
      (laggedMarket.analyze laggedSettings).decision.scenario = .sweepReversal ∧
      (laggedMarket.analyze laggedSettings).details.micro = none ∧
      (laggedMarket.analyze laggedSettings).liquidity.phase = .manipulation ∧
      (laggedMarket.analyze laggedSettings).decision.keyLevels.map (·.name) =
        ["htf_high", "htf_low", "swept_extreme"] := by
  have hmicro : laggedSettings.scenario.microBars ≤ laggedSettings.swing.window := by decide
  have hsweep : max laggedSettings.scenario.sweepBars 1 ≤ laggedSettings.swing.window := by decide
  have hscenario : (laggedMarket.analyze laggedSettings).decision.scenario = .sweepReversal := by
    decide +kernel
  obtain ⟨-, hmicro', hsweep'⟩ := analyze_lagged laggedSettings
  exact ⟨hmicro, hsweep, by decide, by decide +kernel, hscenario, (hmicro' hmicro laggedMarket).1,
    hsweep' hsweep laggedMarket hscenario⟩

end Market

end PriceAction
