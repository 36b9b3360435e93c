import PriceAction.Proofs.Zone.Report
import PriceAction.Snapshot.Analysis

/-!
# Roles follow the bias

Pools, zones and retracement bands are made by eleven constructors, each of which sets a direction
and a role. In an analysis the role is always that of the direction relative to the bias
(`Market.analyze_roles`), and a continued trend has the direction of the bias and of the trend.
-/

namespace PriceAction

/-! ## Roles -/

theorem Bias.direction?_eq_some_iff {b : Bias} {d : Direction} :
    b.direction? = some d ↔ b = .ofDirection d := by
  cases b <;> cases d <;> decide

/-- Whether a role is that of a direction: primary in the direction of the bias, against the trend
in the opposite one, and neutral if there is no bias. -/
structure Role.Follows (r : Role) (d : Direction) (b : Bias) : Prop where
  relative : r = .relative d b
  primary_iff : r = .primary ↔ b = .ofDirection d
  countertrend_iff : r = .countertrend ↔ b = .ofDirection d.opposite
  neutral_iff : r = .neutral ↔ b = .neutral

theorem Role.follows_relative (d : Direction) (b : Bias) : (relative d b).Follows d b := by
  refine ⟨rfl, ?_, ?_, ?_⟩ <;> cases d <;> cases b <;> decide

theorem Role.follows_of_eq {r : Role} {d : Direction} {b : Bias} (h : r = .relative d b) :
    r.Follows d b :=
  h ▸ follows_relative d b

variable {α : Type} [Scalar α]

/-! ## The continuation of a trend -/

namespace Scenario

variable {view : ScenarioView α} {d : Direction} {confidence : α} {reasons : List String}
  {levels : List (KeyLevel α)}

theorem of_continuationWalk {last : Bar α}
    (h : continuationWalk view last = .reached d confidence reasons levels) :
    view.structural.bias.direction? = some d ∧ view.structural.trend.direction? = some d := by
  rw [continuationWalk] at h
  split at h
  · cases h
  · next side hbias =>
    dsimp only at h
    split at h
    · cases h
    · next haligned =>
      rw [not_or, not_not] at haligned
      split at h
      · cases h
      · split at h
        · cases h
        · rw [confirmContinuation] at h
          cases h
          exact ⟨hbias, haligned.1⟩

theorem direction_of_trendContinuation {settings : ScenarioSettings}
    (h : (classify view settings).scenario = .trendContinuation) :
    ∃ d, (classify view settings).direction = some d ∧
      view.structural.bias.direction? = some d ∧ view.structural.trend.direction? = some d := by
  rw [classify] at h ⊢
  cases hlast : view.bars.getLast? with
  | none => simp [hlast, Decision.unclear] at h
  | some last =>
    simp only [hlast] at h ⊢
    cases hreversal : reversalWalk view settings last with
    | reached => simp [hreversal, decided] at h
    | blocked passed o reasons levels =>
      simp only [hreversal] at h ⊢
      cases hwalk : continuationWalk view last with
      | reached d => exact ⟨d, rfl, of_continuationWalk hwalk⟩
      | blocked passed' o' reasons' levels' =>
        simp only [hwalk] at h
        split at h <;> cases h

end Scenario

/-! ## The analysis -/

namespace Market

variable (m : Market α) (settings : Settings α)

/-- **Every role is that of the direction.** -/
theorem analyze_roles :
    (∀ p ∈ (m.analyze settings).liquidity.pools,
      p.role.Follows p.direction (m.analyze settings).structural.bias) ∧
    (∀ z ∈ (m.analyze settings).zones.all,
      z.role.Follows z.direction (m.analyze settings).structural.bias) ∧
    (∀ z ∈ (m.analyze settings).zones.active,
      z.role.Follows z.direction (m.analyze settings).structural.bias) ∧
    (∀ z ∈ (m.analyze settings).structural.retracements,
      z.role.Follows z.direction (m.analyze settings).structural.bias) ∧
    (∀ magnet ∈ (m.analyze settings).liquidity.magnets,
      magnet.primary = true → magnet.role = .primary) ∧
    (m.analyze settings).liquidity.magnets.countP (·.primary) ≤ settings.liquidity.mostPrimary ∧
    ((m.analyze settings).decision.scenario = .trendContinuation →
      ∃ d, (m.analyze settings).decision.direction = some d ∧
        (m.analyze settings).structural.bias = .ofDirection d ∧
        (m.analyze settings).structural.trend.direction? = some d) := by
  have hstructural := Structure.coherent_analyze (m.prepared settings).clean settings
  have hzones : ∀ z ∈ (m.analyze settings).zones.all,
      z.role.Follows z.direction (m.analyze settings).structural.bias := by
    intro z hz
    exact Role.follows_of_eq (Zone.coherent_of_mem_all hstructural.breaks hz).role
  have hmagnets := Magnet.ofPools_spec (m.analyze settings).liquidity.pools
    settings.liquidity.tolerance settings.liquidity.mostPrimary
  refine ⟨?_, hzones, ?_, ?_, hmagnets.1, hmagnets.2, ?_⟩
  · intro p hp
    exact Role.follows_of_eq (Liquidity.coherent_of_mem_pools hstructural hp).role
  · intro z hz
    exact hzones z ((ZoneReport.active_sublist _).subset hz)
  · intro z hz
    obtain ⟨leg, -, hz⟩ := Structure.exists_of_mem_retracements hz
    rw [hz]
    exact Role.follows_relative ..
  · intro h
    obtain ⟨d, hdirection, hbias, htrend⟩ := Scenario.direction_of_trendContinuation h
    exact ⟨d, hdirection, Bias.direction?_eq_some_iff.1 hbias, htrend⟩

end Market

end PriceAction
