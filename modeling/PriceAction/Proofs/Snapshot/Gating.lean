import PriceAction.Proofs.Indexed.Market
import PriceAction.Proofs.Liquidity.Listing

/-!
# What the volatility decides

The period of the volatility reaches the breaks, and through them the bias, the roles, the bands and
the zones. Nothing else depends on it, and an analysis without a volatility has none of these
(`Market.analyze_gated`).
-/

namespace PriceAction

/-- The settings with another period for the volatility. -/
def Settings.withVolatilityPeriod {α : Type} (settings : Settings α) (period : Nat) : Settings α :=
  { settings with
    structural := { settings.structural with volatilityPeriod := period } }

namespace Analysis

variable {α : Type}

/-- What two analyses share when they saw the same bars under different volatilities. -/
structure Agree (a a' : Analysis α) : Prop where
  swings : a'.structural.swings = a.structural.swings
  legs : a'.structural.legs = a.structural.legs
  trend : a'.structural.trend = a.structural.trend
  trendSource : a'.structural.details.trendSource = a.structural.details.trendSource
  activeRange : a'.structural.activeRange = a.structural.activeRange
  driftEfficiency : a'.structural.details.driftEfficiency = a.structural.details.driftEfficiency
  sweeps : a'.liquidity.sweeps = a.liquidity.sweeps
  wickClusters : a'.liquidity.wickClusters = a.liquidity.wickClusters
  pools : Pool.unbiased a'.liquidity.pools = Pool.unbiased a.liquidity.pools

/-- What an analysis that needs a volatility and has none leaves out. -/
structure Gated (a : Analysis α) : Prop where
  breaks : a.structural.breaks = []
  retracements : a.structural.retracements = []
  bias : a.structural.bias = .ofTrend a.structural.trend
  all : a.zones.all = []
  active : a.zones.active = []
  skipped : a.zones.skipped =
    [.volatility ZoneKind.orderBlock.stage, .volatility ZoneKind.imbalance.stage,
      .volatility ZoneKind.breaker.stage, .volatility ZoneKind.confluence.stage]

end Analysis

/-! ## One stage after the other -/

namespace Structure

variable {α : Type} [Scalar α] {bars : List (Bar α)} {settings : Settings α}

theorem volatility_analyze (bars : List (Bar α)) (settings : Settings α) :
    (analyze bars settings).volatility =
      averageTrueRange? bars settings.structural.volatilityPeriod := rfl

theorem breaks_eq_nil_of_volatility (h : (analyze bars settings).volatility = none) :
    (analyze bars settings).breaks = [] := by
  rw [volatility_analyze] at h
  rw [breaks_analyze, h]

theorem retracements_eq_nil_of_volatility (h : (analyze bars settings).volatility = none) :
    (analyze bars settings).retracements = [] := by
  rw [volatility_analyze] at h
  rw [retracements_eq, h]

theorem bias_of_breaks_eq_nil (h : (analyze bars settings).breaks = []) :
    (analyze bars settings).bias = .ofTrend (analyze bars settings).trend := by
  have hbias : (analyze bars settings).bias =
      biasOf (analyze bars settings).trend (analyze bars settings).lastCharacter? := rfl
  rw [hbias, lastCharacter?, h]
  rfl

end Structure

namespace ZoneReport

variable {α : Type} [Scalar α] {view : ZoneView α}

theorem all_eq_nil_of_volatility (h : view.structural.volatility = none) : (analyze view).all = [] := by
  rw [all_analyze, h]

theorem active_eq_nil_of_volatility (h : view.structural.volatility = none) :
    (analyze view).active = [] :=
  List.sublist_nil.1 (all_eq_nil_of_volatility h ▸ active_sublist view)

theorem skipped_of_volatility (h : view.structural.volatility = none) :
    (analyze view).skipped = Zone.searchOrder.map (.volatility ·.stage) := by
  have hsearch (found : List (Zone α) × List Shortfall) (kind : ZoneKind) :
      Zone.search view found kind = (found.1, found.2 ++ [.volatility kind.stage]) := by
    rw [Zone.search, Zone.detect, h]
  simp only [analyze, Zone.searchOrder, List.foldl_cons, List.foldl_nil, hsearch]
  rfl

end ZoneReport

/-! ## The whole analysis -/

namespace Market

variable {α : Type} [Scalar α]

theorem gated_analyze (m : Market α) {settings : Settings α}
    (h : (m.analyze settings).structural.volatility = none) : (m.analyze settings).Gated :=
  have hbreaks := Structure.breaks_eq_nil_of_volatility h
  { breaks := hbreaks
    retracements := Structure.retracements_eq_nil_of_volatility h
    bias := Structure.bias_of_breaks_eq_nil hbreaks
    all := ZoneReport.all_eq_nil_of_volatility h
    active := ZoneReport.active_eq_nil_of_volatility h
    skipped := ZoneReport.skipped_of_volatility h }

theorem agree_withVolatilityPeriod [LawfulScalar α] (m : Market α) (settings : Settings α)
    (period : Nat) :
    (m.analyze settings).Agree (m.analyze (settings.withVolatilityPeriod period)) where
  swings := rfl
  legs := rfl
  trend := rfl
  trendSource := rfl
  activeRange := rfl
  driftEfficiency := rfl
  sweeps := rfl
  wickClusters := rfl
  pools := Liquidity.unbiased_pools_congr rfl rfl

/-- **The volatility decides what needs it, and nothing else.** Two analyses of one market whose
settings differ in the period of the volatility have the same swings, legs, trend, range, drift,
sweeps and wick clusters, and list the same pools but for the trend liquidity and the roles. Of the
two, one without a volatility has no breaks, bands or zones, takes its bias from the trend, and says
of each of the four searches that it lacked a volatility. -/
theorem analyze_gated (m : Market Float) (settings : Settings Float) (period : Nat) :
    (m.analyze settings).Agree (m.analyze (settings.withVolatilityPeriod period)) ∧
      ((m.analyze settings).structural.volatility = none → (m.analyze settings).Gated) ∧
      ((m.analyze (settings.withVolatilityPeriod period)).structural.volatility = none →
        (m.analyze (settings.withVolatilityPeriod period)).Gated) :=
  ⟨m.agree_withVolatilityPeriod settings period, m.gated_analyze, m.gated_analyze⟩

/-- Ten bars have a volatility over one bar and none over a hundred. -/
theorem analyze_gated_turning :
    let a := turningMarket.analyze turningSettings
    let a' := turningMarket.analyze (turningSettings.withVolatilityPeriod 100)
    a.structural.bias = .bullish ∧ a.structural.breaks.length = 4 ∧
      a'.structural.trend = .range ∧ a'.structural.bias = .neutral ∧ a.Agree a' ∧ a'.Gated := by
  have h := analyze_gated turningMarket turningSettings 100
  exact ⟨by decide, by decide, by decide, by decide, h.1,
    h.2.2 (by decide)⟩

end Market

end PriceAction
