import PriceAction.Proofs.Floating.Sum
import PriceAction.Proofs.Scenario.Exits
import PriceAction.Scenario.Gates

/-!
# The confidence of decisions

A blocked walk has passed three gates at most, so an unclear decision has a confidence of `0.375`
at most. A walk that reached its end starts from `0.55` and only gains. So no unclear decision
outbids a named one, whatever the market (`classify_graded`, `named_observe`).
-/

namespace PriceAction

/-! ## Bounds -/

/-- The bounds that a walk keeps at its end. -/
def Walk.Graded : Walk Float → Prop
  | .reached _ confidence _ _ => 0.55 ≤ Scalar.clamp confidence 0.0 1.0
  | .blocked passed _ _ _ => passed ≤ 3

/-- The bounds on the confidence of a decision. -/
def Decision.Graded (d : Decision Float) : Prop :=
  if d.scenario = .unclear then d.confidence ≤ 0.375 else 0.55 ≤ d.confidence

theorem Decision.Graded.le_of_unclear {d : Decision Float} (h : d.Graded)
    (hunclear : d.scenario = .unclear) : d.confidence ≤ 0.375 := by
  rwa [Graded, if_pos hunclear] at h

theorem Decision.Graded.le_of_named {d : Decision Float} (h : d.Graded)
    (hnamed : d.scenario ≠ .unclear) : 0.55 ≤ d.confidence := by
  rwa [Graded, if_neg hnamed] at h

namespace Scenario

/-! ## The walks -/

theorem reversal_confidence : ∀ character manipulation agrees : Bool,
    (0.55 : Float) ≤ Scalar.clamp (Scalar.min
      (bonus agrees 0.1 (bonus manipulation 0.1 (bonus character 0.15 0.55))) 0.95) 0.0 1.0 := by
  decide +kernel

theorem continuation_confidence : ∀ continues agrees inside : Bool,
    (0.55 : Float) ≤ Scalar.clamp (Scalar.min
      (bonus inside 0.05 (bonus agrees 0.1 (bonus continues 0.1 0.6))) 0.95) 0.0 1.0 := by
  decide +kernel

variable (view : ScenarioView Float)

theorem confirmReversal_graded (d : Direction) (character : Option (Break Float))
    (reasons : List String) (levels : List (KeyLevel Float)) :
    (confirmReversal view d character reasons levels).Graded := by
  rw [confirmReversal]
  dsimp only
  split
  · exact Nat.le_refl 3
  · exact reversal_confidence _ _ _

theorem reversalWalk_graded (settings : ScenarioSettings) (last : Bar Float) :
    (reversalWalk view settings last).Graded := by
  rw [reversalWalk]
  split
  · exact Nat.zero_le 3
  · dsimp only
    split
    · exact show 1 ≤ 3 by decide
    · split
      · exact confirmReversal_graded view _ _ _ _
      · exact show 2 ≤ 3 by decide

theorem confirmContinuation_graded (d : Direction) (last : Bar Float) (low high : Float)
    (reasons : List String) (levels : List (KeyLevel Float)) :
    (confirmContinuation view d last low high reasons levels).Graded :=
  continuation_confidence _ _ _

theorem continuationWalk_graded (last : Bar Float) : (continuationWalk view last).Graded := by
  rw [continuationWalk]
  split
  · exact Nat.zero_le 3
  · dsimp only
    split
    · exact show 1 ≤ 3 by decide
    · split
      · exact show 2 ≤ 3 by decide
      · split
        · exact Nat.le_refl 3
        · exact confirmContinuation_graded view _ _ _ _ _ _

/-! ## The decision -/

theorem decided_graded {scenario : Scenario} (hnamed : scenario ≠ .unclear) {d : Direction}
    {confidence : Float} {reasons : List String} {levels : List (KeyLevel Float)}
    (h : (Walk.reached d confidence reasons levels).Graded) :
    (decided scenario d confidence reasons levels).Graded := by
  rw [Decision.Graded, decided, if_neg hnamed]
  exact h

theorem unclear_graded {o : Obstacle} {confidence : Float} {reasons : List String}
    {levels : List (KeyLevel Float)} (h : confidence ≤ 0.375) :
    (Decision.unclear o confidence reasons levels).Graded := by
  rw [Decision.Graded, Decision.unclear, if_pos rfl]
  exact h

theorem share_le : ∀ passed < 4, ((passed : Nat) : Float) / 4.0 * 0.5 ≤ 0.375 := by
  decide

theorem undecided_graded (nearest : Scenario) {passed : Nat} {o : Obstacle}
    {reasons : List String} {levels : List (KeyLevel Float)}
    (h : (Walk.blocked passed o reasons levels).Graded) :
    (undecided nearest passed o reasons levels).Graded :=
  unclear_graded (share_le passed (Nat.lt_succ_of_le h))

theorem classify_graded (settings : ScenarioSettings) : (classify view settings).Graded := by
  rw [classify]
  split
  · exact unclear_graded (by decide)
  · next last _ =>
    have hreversal := reversalWalk_graded view settings last
    have hcontinuation := continuationWalk_graded view last
    split
    · next hwalk =>
      rw [hwalk] at hreversal
      exact decided_graded (by decide) hreversal
    · next hwalk =>
      rw [hwalk] at hcontinuation
      exact decided_graded (by decide) hcontinuation
    · next hwalk hwalk' =>
      rw [hwalk] at hreversal
      rw [hwalk'] at hcontinuation
      split
      · exact undecided_graded _ hreversal
      · exact undecided_graded _ hcontinuation

end Scenario

/-! ## Observing -/

namespace StableRecord

variable {settings : StabilitySettings Float} {r : StableRecord Float} {o : Observation Float}

theorem graded_observe (hr : r.stable.Graded) (ho : o.raw.Graded) :
    (r.observe settings o).stable.Graded := by
  rcases r.stable_observe settings o with h | h
  · rwa [h]
  · rwa [h]

theorem unclear_lt_named (hmargin : 0.0 ≤ settings.margin) {c d : Decision Float} (hc : c.Graded)
    (hd : d.Graded) (hunclear : d.scenario = .unclear) (hnamed : c.scenario ≠ .unclear) :
    d.confidence < c.confidence + settings.margin := by
  have hlow : d.confidence ≤ 0.375 := hd.le_of_unclear hunclear
  have hhigh : 0.55 ≤ c.confidence := hc.le_of_named hnamed
  have hpos : 0.0 < c.confidence :=
    Floating.lt_of_lt_of_le (show (0.0 : Float) < 0.55 by decide) hhigh
  have hgain : c.confidence ≤ c.confidence + settings.margin :=
    Floating.le_add_of_nonneg hpos hmargin
  have hgap : d.confidence < 0.55 :=
    Floating.lt_of_le_of_lt hlow (by decide)
  exact Floating.lt_of_lt_of_le (Floating.lt_of_lt_of_le hgap hhigh) hgain

theorem named_observe (hmargin : 0.0 ≤ settings.margin) (hr : r.stable.Graded) (ho : o.raw.Graded)
    (hnamed : r.stable.scenario ≠ .unclear) :
    (r.observe settings o).stable.scenario ≠ .unclear := by
  rcases r.observe_cases settings o with ⟨-, h⟩ | ⟨-, h⟩ | ⟨-, hkey, h⟩ | ⟨-, -, -, h⟩ |
    ⟨-, -, hswitched, h⟩
  · rwa [h]
  · rwa [h]
  · have hscenario : o.raw.scenario = r.stable.scenario := congrArg Prod.fst hkey
    rw [h]
    exact ne_of_eq_of_ne hscenario hnamed
  · rwa [h]
  · rw [h]
    intro hunclear
    obtain ⟨-, -, hstable | hconfident⟩ := (r.verdict_eq_switched_iff settings o).1 hswitched
    · exact hnamed hstable
    · exact hconfident (unclear_lt_named hmargin hr ho hunclear hnamed)

end StableRecord

end PriceAction
