import PriceAction.Proofs.Bounds.Basic
import PriceAction.Proofs.Structure.Dated

/-!
# The numbers of a structure

A volatility is positive, an efficiency is a share by the triangle inequality, and bands and ranges
have their edges in order (`Structure.bounded_analyze`).
-/

namespace PriceAction

variable {bars : List (Bar Rat)} {settings : Settings Rat}

/-! ## Volatility and drift -/

theorem pos_of_averageTrueRange? {period : Nat} {v : Rat}
    (h : averageTrueRange? bars period = some v) : 0 < v := by
  rw [averageTrueRange?, Option.ite_none_left_eq_some] at h
  obtain ⟨hpositive, hv⟩ := Option.ite_none_right_eq_some.1 h.2
  cases hv
  have hv := of_decide_eq_true (Bool.and_eq_true_iff.1 hpositive).2
  rwa [Scalar.zero_eq] at hv

theorem abs_sub_le_path {β : Type} (f : β → Rat) {x y : β} {rest : List β}
    (h : (x :: rest).getLast? = some y) :
    |f y - f x| ≤ ((adjacent (x :: rest)).map fun (a, b) => |f b - f a|).sum := by
  induction rest generalizing x with
  | nil =>
    cases h
    simp [adjacent]
  | cons z rest ih =>
    rw [List.getLast?_cons_cons] at h
    have hstep : (adjacent (x :: z :: rest)).map (fun (a, b) => |f b - f a|) =
        |f z - f x| :: (adjacent (z :: rest)).map fun (a, b) => |f b - f a| := rfl
    rw [hstep, List.sum_cons]
    calc |f y - f x| ≤ |f y - f z| + |f z - f x| := abs_sub_le ..
      _ ≤ _ := by linarith [ih h]

theorem efficiency_mem_of_closeDrift? {d : Drift Rat} (h : closeDrift? bars = some d) :
    d.efficiency ∈ Shares := by
  rw [closeDrift?] at h
  split at h
  · next first last hfirst hlast =>
    obtain ⟨-, h⟩ := Option.ite_none_left_eq_some.1 h
    obtain ⟨-, h⟩ := Option.ite_none_left_eq_some.1 h
    cases h
    obtain ⟨rest, rfl⟩ := List.head?_eq_some_iff.1 hfirst
    simp only [Scalar.abs_eq, Scalar.sum_eq]
    exact Scalar.div_mem (abs_nonneg _) (abs_sub_le_path Bar.close hlast)
  · cases h

/-! ## The active range -/

theorem TradingRange.low_le_high_of_detect {settings : RangeSettings} {r : TradingRange Rat}
    (h : detect bars settings = .ok r) : r.low ≤ r.high := by
  unfold detect at h
  extract_lets least at h
  cases hbars : bars.reverse with
  | nil => simp [hbars] at h
  | cons latest earlier =>
    simp only [hbars] at h
    split at h
    · split at h
      · cases h
      · split at h
        · cases h
        · next hwide =>
          cases h
          exact (not_le.1 hwide).le
    · cases h

/-! ## Legs, breaks and bands -/

theorem Leg.amplitude_nonneg (l : Leg Rat) : 0 ≤ l.amplitude := by
  rw [amplitude, Scalar.abs_eq]
  exact abs_nonneg _

theorem Break.displacement_nonneg_of_mem {settings : StructureSettings Rat} {volatility : Rat}
    {last : Option Direction} {labels : List SwingLabel} {prior? : Option (Swing Rat)} {index : Nat}
    {legs : List (Leg Rat)} {e : Break Rat}
    (h : e ∈ along settings volatility bars last labels prior? index legs) :
    0 ≤ e.displacement := by
  induction legs generalizing last labels prior? index with
  | nil => cases h
  | cons leg rest ih =>
    rcases mem_along_cons.1 h with hleg | hrest
    · obtain ⟨prior, -, hmap⟩ := Option.bind_eq_some_iff.1 hleg
      obtain ⟨hit, -, rfl⟩ := Option.map_eq_some_iff.1 hmap
      exact leg.amplitude_nonneg
    · exact ih hrest

/-- Whether a band has its edges in order and its leg an amplitude. -/
structure Retracement.Bounded (z : Retracement Rat) : Prop where
  low_le : z.low ≤ z.high
  amplitude : 0 ≤ z.amplitude

theorem Retracement.bounded_ofLeg {settings : RetracementSettings Rat}
    (h : settings.nearShare < settings.farShare) (bias : Bias) (leg : Leg Rat) (index : Nat) :
    (ofLeg settings bias leg index).Bounded := by
  refine ⟨?_, leg.amplitude_nonneg⟩
  have hle := mul_le_mul_of_nonneg_right h.le leg.amplitude_nonneg
  dsimp only [ofLeg, band]
  cases leg.direction with
  | bullish => exact sub_le_sub_left hle _
  | bearish => exact add_le_add_right hle _

/-! ## The structure -/

/-- The bounds of the numbers of a structure. -/
structure Structure.Bounded (s : Structure Rat) : Prop where
  volatility : ∀ v ∈ s.volatility, 0 < v
  driftEfficiency : ∀ x ∈ s.details.driftEfficiency, x ∈ Shares
  activeRange : ∀ r ∈ s.activeRange, r.low ≤ r.high
  breaks : ∀ e ∈ s.breaks, 0 ≤ e.displacement
  retracements : ∀ z ∈ s.retracements, z.Bounded

theorem Structure.bounded_analyze (bars : List (Bar Rat))
    (h : settings.retracement.nearShare < settings.retracement.farShare) :
    (analyze bars settings).Bounded where
  volatility _ hv := pos_of_averageTrueRange? hv
  driftEfficiency x hx := by
    obtain ⟨d, hd, rfl⟩ := Option.map_eq_some_iff.1 hx
    exact efficiency_mem_of_closeDrift? hd
  activeRange _ hr := TradingRange.low_le_high_of_detect (detect_of_activeRange hr)
  breaks e he := by
    rw [breaks_analyze] at he
    split at he
    · exact Break.displacement_nonneg_of_mem he
    · cases he
  retracements z hz := by
    obtain ⟨leg, -, hz⟩ := exists_of_mem_retracements hz
    rw [hz]
    exact Retracement.bounded_ofLeg h ..

end PriceAction
