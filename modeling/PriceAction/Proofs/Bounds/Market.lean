import PriceAction.Proofs.Bounds.Liquidity
import PriceAction.Proofs.Bounds.Zone
import PriceAction.Proofs.Rescaling.Market
import PriceAction.Proofs.Scenario.Gates
import PriceAction.Settings.Validation

/-!
# The numbers of an analysis

In exact arithmetic, and with settings that pass their checks, every number of an analysis lies in
its documented range (`Market.analyze_bounded`).
-/

namespace PriceAction

/-! ## Settings -/

theorem Settings.nearShare_lt_farShare {settings : Settings Rat} (h : settings.fault? = none) :
    settings.retracement.nearShare < settings.retracement.farShare := by
  rw [fault?, List.findSome?_eq_none_iff] at h
  have hband := h (if settings.retracement.farShare ≤ settings.retracement.nearShare then
      some (.invertedBand settings.retracement.nearShare settings.retracement.farShare)
    else none) (by simp [checks])
  simpa using hband

/-! ## The decision -/

namespace Scenario

theorem openShare_mem {passed : Nat} (h : passed < 4) :
    ((passed : Rat) / 4.0 * 0.5) ∈ Shares := by
  have hle : (passed : Rat) ≤ 4.0 := by
    norm_num
    exact h.le
  exact Scalar.mul_mem (Scalar.div_mem (Nat.cast_nonneg passed) hle) (by norm_num)

theorem confidence_mem (view : ScenarioView Rat) (settings : ScenarioSettings) :
    (classify view settings).confidence ∈ Shares := by
  rw [classify]
  split
  · exact Scalar.zero_mem
  · next last _ =>
    have hreversal := reversalWalk_tells view settings last
    have hcontinuation := continuationWalk_tells view last
    split
    · exact Scalar.clamp_mem _
    · exact Scalar.clamp_mem _
    · next hwalk hwalk' =>
      rw [hwalk] at hreversal
      rw [hwalk'] at hcontinuation
      split
      · exact openShare_mem (Gate.FirstClosed.lt_length hreversal)
      · exact openShare_mem (Gate.FirstClosed.lt_length hcontinuation)

end Scenario

/-! ## The analysis -/

/-- The bounds of the numbers of an analysis. -/
structure Analysis.Bounded (a : Analysis Rat) : Prop where
  structural : a.structural.Bounded
  liquidity : a.liquidity.Bounded
  zones : ∀ z ∈ a.zones.all, z.Bounded
  active : ∀ z ∈ a.zones.active, z.Bounded
  confidence : a.decision.confidence ∈ Shares

namespace Market

/-- **Every number lies in its range.** In exact arithmetic and with valid settings, the strengths,
fills, wicks, confidences and efficiencies of an analysis lie between zero and one, a volatility is
positive, displacements and amplitudes are not negative, every band and range has its edges in
order, and every magnet has its price in its band. -/
theorem analyze_bounded (m : Market Rat) {settings : Settings Rat} (h : settings.fault? = none) :
    (m.analyze settings).Bounded := by
  have hclean : IsClean (m.prepared settings).clean := isClean_prepare ..
  have hstructural := Structure.bounded_analyze (m.prepared settings).clean
    (Settings.nearShare_lt_farShare h)
  have hzones (z : Zone Rat) (hz : z ∈ (m.analyze settings).zones.all) : z.Bounded :=
    Zone.bounded_of_mem_all hclean hstructural hz
  exact
    { structural := hstructural
      liquidity := Liquidity.bounded_analyze hclean (Structure.coherent_analyze _ settings) _ _
      zones := hzones
      active := fun z hz => hzones z ((ZoneReport.active_sublist _).subset hz)
      confidence := Scenario.confidence_mem _ _ }

theorem analyze_bounded_zigzag :
    Structure.zigzagSettings.fault? = none ∧
      (zigzagMarket.analyze Structure.zigzagSettings).structural.breaks.map (·.displacement) =
        [10, 12, 16, 21] ∧
      (zigzagMarket.analyze Structure.zigzagSettings).Bounded := by
  have hvalid : Structure.zigzagSettings.fault? = none :=
    Option.isNone_iff_eq_none.1 (by decide +kernel)
  exact ⟨hvalid, by decide +kernel, analyze_bounded zigzagMarket hvalid⟩

end Market

end PriceAction
