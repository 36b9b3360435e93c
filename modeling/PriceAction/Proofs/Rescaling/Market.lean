import PriceAction.Proofs.Register
import PriceAction.Proofs.Rescaling.Scenario
import PriceAction.Snapshot.Limits

/-!
# The analysis of rescaled prices

If all prices of a market are multiplied by one positive factor, the prices in its analysis are
multiplied by it, and nothing else changes but the prices that the reasons of its decision tell
(`Market.analyze_equivariant`). The unit of the prices is of no matter.
-/

namespace PriceAction

/-! ## Rescaled records -/

/-- The fault with its prices multiplied by a factor. -/
def BarFault.rescale (k : Rat) : BarFault Rat → BarFault Rat
  | .nonFinite index time => .nonFinite index time
  | .inconsistent index time high low => .inconsistent index time (k * high) (k * low)
  | .negativeVolume index time => .negativeVolume index time
  | .outOfOrder index time previous => .outOfOrder index time previous

/-- The kept bars and the faults of the others, with their prices multiplied by a factor. -/
@[simps] def Sanitized.rescale (k : Rat) (s : Sanitized Rat) : Sanitized Rat where
  clean := s.clean.map (Bar.rescale k)
  rejected := s.rejected.map (BarFault.rescale k)

/-- The market with all prices of its bars and of its daily range multiplied by a factor. -/
@[simps] def Market.rescale (k : Rat) (m : Market Rat) : Market Rat where
  symbol := m.symbol
  primary := m.primary
  series := m.series.map fun _ bars => bars.map (Bar.rescale k)
  context := m.context.rescale k

/-- The analysis with its prices multiplied by a factor. -/
def Analysis.rescale (k : Rat) (a : Analysis Rat) : Analysis Rat where
  structural := a.structural.rescale k
  liquidity := a.liquidity.rescale k
  zones := a.zones.rescale k
  decision := a.decision.rescale k
  details :=
    { a.details with
      lastPrice := a.details.lastPrice.map (k * ·)
      rejected := a.details.rejected.map (BarFault.rescale k) }

/-- The analysis with the reasons of its decision untold. -/
def Analysis.withoutTexts {α : Type} (a : Analysis α) : Analysis α :=
  { a with decision := a.decision.withoutTexts }

/-! ## The series of a market -/

namespace Market

theorem primaryBars?_rescale (k : Rat) (m : Market Rat) :
    (m.rescale k).primaryBars? = m.primaryBars?.map (List.map (Bar.rescale k)) :=
  Register.get?_map ..

theorem dailySeries?_rescale (k : Rat) (m : Market Rat) :
    (m.rescale k).dailySeries? =
      m.dailySeries?.map fun (tf, bars) => (tf, bars.map (Bar.rescale k)) := by
  simp only [dailySeries?, rescale, Register.map, List.find?_map, Option.map_map]
  rfl

end Market

section Positive

variable {k : Rat} (hk : 0 < k)
include hk

/-! ## Sanitation -/

theorem Bar.fault?_rescale (index : Nat) (b : Bar Rat) (previous : Option Instant) :
    (b.rescale k).fault? index previous = (b.fault? index previous).map (BarFault.rescale k) := by
  have hinconsistent : (b.rescale k).isInconsistent = b.isInconsistent := by
    simp only [isInconsistent, high_rescale hk, low_rescale hk, bodyHigh_rescale hk,
      bodyLow_rescale hk, mul_lt_mul_iff_of_pos_left hk]
  have hfinite : (b.rescale k).isFinite = b.isFinite := rfl
  unfold fault?
  rw [hinconsistent, hfinite, high_rescale hk, low_rescale hk]
  simp only [apply_ite (Option.map _), Option.map_some]
  cases previous with
  | none => rfl
  | some t =>
    simp only [apply_ite (Option.map _), Option.map_some, Option.map_none]
    rfl

theorem sanitizeFrom_rescale (index : Nat) (previous : Option Instant) (bars : List (Bar Rat)) :
    sanitizeFrom index previous (bars.map (Bar.rescale k)) =
      (sanitizeFrom index previous bars).rescale k := by
  induction bars generalizing index previous with
  | nil => rfl
  | cons b rest ih =>
    rw [List.map_cons, sanitizeFrom, sanitizeFrom, Bar.fault?_rescale hk]
    cases b.fault? index previous with
    | none =>
      simp only [Option.map_none, Bar.time_rescale, ih]
      rfl
    | some fault =>
      simp only [Option.map_some, ih]
      rfl

theorem sanitize_rescale (bars : List (Bar Rat)) :
    sanitize (bars.map (Bar.rescale k)) = (sanitize bars).rescale k :=
  sanitizeFrom_rescale hk 0 none bars

theorem prepare_rescale (bars : List (Bar Rat)) (lookback : Nat) :
    prepare (bars.map (Bar.rescale k)) lookback = (prepare bars lookback).rescale k := by
  simp only [prepare, sanitize_rescale hk, Sanitized.rescale, List.length_map, List.map_drop]

namespace Market

theorem prepared_rescale (m : Market Rat) (settings : Settings Rat) :
    (m.rescale k).prepared settings = (m.prepared settings).rescale k := by
  rw [prepared, primaryBars?_rescale, prepared]
  cases m.primaryBars? with
  | none => exact prepare_rescale hk [] settings.structural.lookback
  | some bars => exact prepare_rescale hk bars settings.structural.lookback

/-! ## The context -/

theorem derivedRange?_rescale (m : Market Rat) (closed : Option Instant) :
    (m.rescale k).derivedRange? closed = (m.derivedRange? closed).map (DailyRange.rescale k) := by
  have hclosed (tf : Timeframe) (b : Bar Rat) :
      hadClosed tf closed (b.rescale k) = hadClosed tf closed b := rfl
  rw [derivedRange?, dailySeries?_rescale, Option.bind_map, derivedRange?, Option.map_bind]
  refine congrArg (Option.bind _) (funext fun (tf, bars) => ?_)
  simp only [Function.comp_def, sanitize_rescale hk, Sanitized.rescale_clean, ← List.map_reverse,
    List.find?_map, hclosed, Option.map_map, Bar.high_rescale hk, Bar.low_rescale hk]
  rfl

theorem resolveContext_rescale (m : Market Rat) (closed : Option Instant) :
    (m.rescale k).resolveContext closed =
      ((m.resolveContext closed).1.rescale k, (m.resolveContext closed).2) := by
  rw [resolveContext, derivedRange?_rescale hk, resolveContext, rescale_context,
    MarketContext.rescale_dailyRange]
  cases m.context.dailyRange with
  | some range => rfl
  | none => cases m.derivedRange? closed <;> rfl

/-! ## The micro timeframe -/

theorem microSignal?_rescale (m : Market Rat) (settings : Settings Rat) :
    (m.rescale k).microSignal? settings = m.microSignal? settings := by
  have hkeys : (m.rescale k).microTimeframe? = m.microTimeframe? := by
    simp only [microTimeframe?, rescale_primary, rescale_series, Register.keys, Register.map,
      List.map_map]
    rfl
  rw [microSignal?, microSignal?, hkeys]
  cases m.microTimeframe? with
  | none => rfl
  | some tf =>
    show ((m.rescale k).series.get? tf.label).bind _ = (m.series.get? tf.label).bind _
    rw [rescale_series, Register.get?_map, Option.bind_map]
    simp only [Function.comp_def, prepare_rescale hk, Sanitized.rescale_clean,
      Structure.analyze_rescale hk, Structure.rescale_breaks, List.getLast?_map, Option.bind_map,
      List.length_map, Option.bind_eq_bind, Break.rescale_barIndex, Break.rescale_kind,
      Break.rescale_direction, turned_of_pos hk, Break.rescale_time]

/-! ## The analysis -/

theorem analysisFits_rescale (m : Market Rat) (settings : Settings Rat) :
    (m.rescale k).analysisFits settings = m.analysisFits settings := by
  have hdaily (closed : Instant) : (m.rescale k).dailyFits closed = m.dailyFits closed := by
    rw [dailyFits, dailySeries?_rescale, rescale_context, MarketContext.rescale_dailyRange,
      dailyFits]
    cases m.context.dailyRange with
    | some range => rfl
    | none =>
      cases m.dailySeries? with
      | none => rfl
      | some e =>
        obtain ⟨tf, bars⟩ := e
        simp only [Option.map_some, Option.map_none, sanitize_rescale hk, Sanitized.rescale_clean,
          ← List.map_reverse, List.takeWhile_map, List.length_map, ← List.map_take, List.all_map]
        rfl
  rw [analysisFits, prepared_rescale hk, Sanitized.rescale_clean, List.getLast?_map, analysisFits]
  cases (m.prepared settings).clean.getLast? with
  | none => rfl
  | some last =>
    simp only [Option.map_some, hdaily]
    rfl

theorem withoutTexts_analyze_rescale (m : Market Rat) (settings : Settings Rat) :
    ((m.rescale k).analyze settings).withoutTexts =
      ((m.analyze settings).rescale k).withoutTexts := by
  have hclose (t : Instant) : (m.rescale k).closeOf t = m.closeOf t := rfl
  simp only [analyze, prepared_rescale hk, Sanitized.rescale_clean, Sanitized.rescale_rejected,
    Structure.analyze_rescale hk, List.getLast?_map, Option.map_map, Function.comp_def,
    Bar.time_rescale, hclose, resolveContext_rescale hk, Liquidity.analyze_rescale hk,
    microSignal?_rescale hk, primaryBars?_rescale, Option.isNone_map]
  -- from here on each stage is settled by its own lemma and then forgotten
  generalize (m.prepared settings).clean = bars
  generalize m.resolveContext _ = context
  generalize Structure.analyze bars settings = structural
  generalize Liquidity.analyze bars structural context.1 settings.liquidity = liquidity
  have hzones := ZoneReport.analyze_rescale hk
    ⟨bars, structural, liquidity, m.primary, settings.zones⟩
  rw [ZoneView.rescale] at hzones
  simp only [rescale_primary, hzones]
  generalize ZoneReport.analyze (⟨bars, structural, liquidity, m.primary, settings.zones⟩ :
    ZoneView Rat) = zones
  have hdecision := Scenario.classify_rescale hk
    ⟨bars, structural, liquidity, zones, context.1⟩ settings.scenario
  rw [ScenarioView.rescale] at hdecision
  simp only [Analysis.withoutTexts, hdecision, Analysis.rescale, rescale_symbol, List.head?_map,
    List.length_map, Option.map_map, Function.comp_def, Bar.time_rescale, Bar.close_rescale]

/-- **The unit of the prices is of no matter.** If all prices of a market are multiplied by a
positive factor, its analysis is the one it had, with every price in it multiplied by the factor and
all else as it was, but for the texts of the reasons. The times and the positions stay, so the same
markets are within the limits of the calendar and of words. -/
theorem analyze_equivariant (m : Market Rat) (settings : Settings Rat) :
    ((m.rescale k).analyze settings).withoutTexts =
        ((m.analyze settings).rescale k).withoutTexts ∧
      ((m.rescale k).analyze? settings).map Analysis.withoutTexts =
        (m.analyze? settings).map fun a => (a.rescale k).withoutTexts := by
  have hanalysis := withoutTexts_analyze_rescale hk m settings
  have hzones : ((m.rescale k).analyze settings).zones = (m.analyze settings).zones.rescale k :=
    congrArg Analysis.zones hanalysis
  refine ⟨hanalysis, ?_⟩
  simp only [analyze?, analysisFits_rescale hk, hzones, ZoneReport.countable_rescale,
    apply_ite (Option.map _), Option.map_some, hanalysis, Option.map_none]

end Market

end Positive

namespace Market

/-- A market of one series. -/
def zigzagMarket : Market Rat where
  symbol := "EURUSD"
  primary := ⟨"1m"⟩
  series := .ofList [("1m", Structure.zigzag)]
  context := { dailyRange := some ⟨120, 100⟩ }

theorem analyze_equivariant_zigzag :
    0 < (2 : Rat) ∧
      (zigzagMarket.analyze Structure.zigzagSettings).structural.breaks.map (·.price) =
        [110, 115, 108, 120] ∧
      ((zigzagMarket.rescale 2).analyze Structure.zigzagSettings).structural.breaks.map (·.price) =
        [220, 230, 216, 240] ∧
      ((zigzagMarket.rescale 2).analyze Structure.zigzagSettings).withoutTexts =
        ((zigzagMarket.analyze Structure.zigzagSettings).rescale 2).withoutTexts := by
  have htwo : 0 < (2 : Rat) := by norm_num
  exact ⟨htwo, by decide +kernel, by decide +kernel,
    (analyze_equivariant htwo zigzagMarket Structure.zigzagSettings).1⟩

end Market

end PriceAction
