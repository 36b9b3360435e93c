import PriceAction.Proofs.Scenario.Confidence
import PriceAction.Scenario.Store
import PriceAction.Snapshot.Run

/-!
# Named scenarios stay named

Only decisions of the gates reach the store of a run that starts empty (`Store.Graded`), so no
later market makes a named scenario unclear again (`batch_stays_named`).
-/

namespace PriceAction

/-! ## Stores -/

namespace Store

/-- The stable scenario of a symbol, if it has been observed. -/
def stableScenario? {α : Type} (s : Store α) (symbol : String) : Option Scenario :=
  (s.get? symbol).map (·.stable.scenario)

/-- Whether the stable scenario of a symbol is a named one. -/
def Named {α : Type} (s : Store α) (symbol : String) : Prop :=
  ∃ scenario, s.stableScenario? symbol = some scenario ∧ scenario ≠ .unclear

/-- Whether all stable decisions keep the bounds of the gates. -/
def Graded (s : Store Float) : Prop :=
  ∀ symbol r, s.get? symbol = some r → r.stable.Graded

theorem named_iff {α : Type} {s : Store α} {symbol : String} :
    s.Named symbol ↔ ∃ r, s.get? symbol = some r ∧ r.stable.scenario ≠ .unclear := by
  simp only [Named, stableScenario?, Option.map_eq_some_iff]
  constructor
  · rintro ⟨_, ⟨r, hr, rfl⟩, hnamed⟩
    exact ⟨r, hr, hnamed⟩
  · rintro ⟨r, hr, hnamed⟩
    exact ⟨_, ⟨r, hr, rfl⟩, hnamed⟩

theorem graded_empty (settings : StabilitySettings Float) : (empty settings).Graded := by
  intro symbol r hr
  cases hr

variable {s : Store Float} {symbol other : String} {o : Observation Float}

theorem graded_nextRecord (hs : s.Graded) (ho : o.raw.Graded) :
    (s.nextRecord symbol o).stable.Graded := by
  rw [nextRecord]
  split
  · next r hr => exact StableRecord.graded_observe (hs symbol r hr) ho
  · exact ho

theorem graded_observe (hs : s.Graded) (ho : o.raw.Graded) : (s.observe symbol o).Graded := by
  intro other r hr
  by_cases hother : other = symbol
  · rw [hother, get?_observe] at hr
    cases hr
    exact graded_nextRecord hs ho
  · rw [get?_observe_of_ne _ hother] at hr
    exact hs other r hr

theorem named_observe (hmargin : 0.0 ≤ s.settings.margin) (hs : s.Graded) (ho : o.raw.Graded)
    (hnamed : s.Named other) : (s.observe symbol o).Named other := by
  rw [named_iff] at *
  obtain ⟨r, hr, hscenario⟩ := hnamed
  by_cases hother : other = symbol
  · subst hother
    refine ⟨s.nextRecord other o, get?_observe _ _ _, ?_⟩
    rw [nextRecord, hr]
    exact StableRecord.named_observe hmargin (hs other r hr) ho hscenario
  · exact ⟨r, by rw [get?_observe_of_ne _ hother, hr], hscenario⟩

end Store

/-! ## Snapshots -/

/-- What a snapshot does to the store: nothing, or one observation of a decision of the gates. -/
theorem Market.snapshot_cases (m : Market Float) (settings : Settings Float) (s : Store Float) :
    (m.snapshot settings s).2 = s ∨
      ∃ o : Observation Float, o.raw.Graded ∧ (m.snapshot settings s).2 = s.observe m.symbol o := by
  have hgraded : (m.analyze settings).decision.Graded := Scenario.classify_graded _ _
  rw [snapshot, Analysis.stabilize]
  split
  · next o ho =>
    obtain ⟨t, -, rfl⟩ := Option.map_eq_some_iff.1 ho
    exact Or.inr ⟨_, hgraded, rfl⟩
  · exact Or.inl rfl

theorem Market.snapshot_keeps (m : Market Float) (settings : Settings Float) {s : Store Float}
    (hmargin : 0.0 ≤ s.settings.margin) (hs : s.Graded) :
    (m.snapshot settings s).2.settings = s.settings ∧ (m.snapshot settings s).2.Graded ∧
      ∀ symbol, s.Named symbol → (m.snapshot settings s).2.Named symbol := by
  rcases m.snapshot_cases settings s with h | ⟨o, ho, h⟩ <;> rw [h]
  · exact ⟨rfl, hs, fun _ hnamed => hnamed⟩
  · exact ⟨rfl, Store.graded_observe hs ho, fun _ => Store.named_observe hmargin hs ho⟩

/-! ## Runs -/

theorem batch_append {α : Type} [Scalar α] (settings : Settings α) (xs ys : List (Market α))
    (s : Store α) :
    (batch settings (xs ++ ys) s).2 = (batch settings ys (batch settings xs s).2).2 := by
  induction xs generalizing s with
  | nil => rfl
  | cons m rest ih => exact ih _

theorem batch_keeps (settings : Settings Float) (markets : List (Market Float)) {s : Store Float}
    (hmargin : 0.0 ≤ s.settings.margin) (hs : s.Graded) :
    (batch settings markets s).2.settings = s.settings ∧ (batch settings markets s).2.Graded ∧
      ∀ symbol, s.Named symbol → (batch settings markets s).2.Named symbol := by
  induction markets generalizing s with
  | nil => exact ⟨rfl, hs, fun _ hnamed => hnamed⟩
  | cons m rest ih =>
    obtain ⟨hsettings, hgraded, hnamed⟩ := m.snapshot_keeps settings hmargin hs
    obtain ⟨hsettings', hgraded', hnamed'⟩ := ih (hsettings ▸ hmargin) hgraded
    exact ⟨hsettings'.trans hsettings, hgraded', fun symbol h => hnamed' symbol (hnamed symbol h)⟩

/-- **Named scenarios stay named.** In a run from the empty store, with a margin that is not
negative, a symbol whose stable scenario is named after some markets still has a named one after
any further markets. -/
theorem batch_stays_named (settings : Settings Float) (hmargin : 0.0 ≤ settings.stability.margin)
    (markets later : List (Market Float)) (symbol : String)
    (hnamed : (batch settings markets (.empty settings.stability)).2.Named symbol) :
    (batch settings (markets ++ later) (.empty settings.stability)).2.Named symbol := by
  have hempty : (Store.empty settings.stability).Graded := Store.graded_empty settings.stability
  obtain ⟨hsettings, hgraded, -⟩ := batch_keeps (s := .empty settings.stability) settings markets
    hmargin hempty
  have hmargin' :
      0.0 ≤ (batch settings markets (.empty settings.stability)).2.settings.margin := by
    rw [hsettings]
    exact hmargin
  rw [batch_append]
  exact (batch_keeps settings later hmargin' hgraded).2.2 symbol hnamed

/-- A run in which a bar sweeps the daily high, and the bar after it opens no gate. -/
theorem batch_stays_named_after_sweep :
    let settings : Settings Float := { Settings.standard with range := { leastBars := 1 } }
    let bars : List (Bar Float) :=
      [⟨⟨0, 0⟩, 1.0, 2.0, 1.0, 1.5, 1.0⟩, ⟨⟨900, 0⟩, 1.5, 4.0, 1.0, 1.5, 1.0⟩]
    let swept : Market Float :=
      { symbol := "EURUSD"
        primary := ⟨"15m"⟩
        series := Register.empty.insert "15m" bars
        context := { dailyRange := some ⟨3.0, 1.0⟩ } }
    let quiet : Market Float :=
      { symbol := "EURUSD"
        primary := ⟨"15m"⟩
        series := Register.empty.insert "15m" (bars ++ [⟨⟨1800, 0⟩, 1.5, 2.0, 1.0, 1.5, 1.0⟩])
        context := {} }
    (0.0 : Float) ≤ settings.stability.margin ∧
      (batch settings [swept] (.empty settings.stability)).2.Named "EURUSD" ∧
      (batch settings ([swept] ++ [quiet]) (.empty settings.stability)).2.Named "EURUSD" := by
  intro settings bars swept quiet
  have hmargin : (0.0 : Float) ≤ settings.stability.margin := by decide
  have hnamed : (batch settings [swept] (.empty settings.stability)).2.Named "EURUSD" :=
    ⟨.sweepReversal, by decide +kernel, by decide⟩
  exact ⟨hmargin, hnamed, batch_stays_named settings hmargin [swept] [quiet] "EURUSD" hnamed⟩

end PriceAction
