import PriceAction.Proofs.Floating.Number
import PriceAction.Proofs.Structure.Closing
import PriceAction.Proofs.Structure.Pivot

/-!
# Labels and breaks agree

A leg passes the pivot that breaks are measured from exactly if its label is a higher high or a
lower low, because both compare its end with the pivot before its start. So a break tells the label
of its leg (`Break.IsOf.label_eq`), and the label tells whether a leg that is large enough and
closes beyond its level breaks it (`Break.detect_agrees`).
-/

namespace PriceAction

/-! ## The label of a leg that breaks -/

/-- The label of a leg that breaks structure in a direction. -/
def SwingLabel.ofBreak (d : Direction) : SwingLabel :=
  match d with
  | .bullish => higherHigh
  | .bearish => lowerLow

section

variable {α : Type} [Scalar α]

theorem SwingLabel.of_eq_ofBreak {kind : SwingKind} {price earlier : α}
    (h : kind.beyond price earlier = true) : of kind price earlier = ofBreak kind.side := by
  cases kind <;> simp only [of, h] <;> rfl

theorem SwingLabel.of_mem_iff {kind : SwingKind} {price earlier : α} :
    of kind price earlier = higherHigh ∨ of kind price earlier = lowerLow ↔
      kind.beyond price earlier = true := by
  cases h : kind.beyond price earlier <;> cases kind <;> simp [of, h]

namespace Leg

variable {swings : List (Swing α)} {k : Nat} {leg : Leg α}

/-- The level of a leg is at the pivot before its start. -/
theorem priorPivot?_ofSwings (h : (ofSwings swings)[k]? = some leg) :
    priorPivot? none (ofSwings swings) k = pivotBefore? none (alternate swings) k := by
  cases k with
  | zero => rfl
  | succ j =>
    obtain ⟨hlt, -⟩ := List.getElem?_eq_some_iff.1 h
    have hprior : (ofSwings swings)[j]? = some (ofSwings swings)[j] :=
      List.getElem?_eq_getElem (by omega)
    rw [priorPivot?, pivotBefore?, hprior, Option.map_some]
    exact (joins_of_getElem? hprior).start_eq.symm

end Leg

end

/-! ## The breaks of swings -/

namespace Break

variable {settings : StructureSettings Float} {volatility : Float} {bars : List (Bar Float)}
  {swings : List (Swing Float)} {k : Nat} {leg : Leg Float}

/-- Whether the amplitude of a leg exceeds what it has to, so far as this is a number. -/
def IsLarge (settings : StructureSettings Float) (volatility : Float) (leg : Leg Float) : Prop :=
  threshold settings volatility leg < leg.amplitude ∨
    ¬threshold settings volatility leg ≤ threshold settings volatility leg

theorem isLarge_iff (hstart : Scalar.isFinite leg.start.price = true)
    (hstop : Scalar.isFinite leg.stop.price = true) :
    IsLarge settings volatility leg ↔ ¬leg.amplitude ≤ threshold settings volatility leg :=
  (Floating.not_le_iff (Floating.le_self_abs_sub hstop hstart)).symm

/-- Whether a break is that of a leg with the label for its direction, past the pivot before the
start of the leg, at the first close beyond it. -/
def AgreesWith (bars : List (Bar Float)) (pivots : List (Swing Float)) (legs : List (Leg Float))
    (e : Break Float) : Prop :=
  ∃ k leg prior, e.legIndex = k + 1 ∧ legs[k + 1]? = some leg ∧
    pivots[k]? = some prior ∧ leg.label = some (.ofBreak e.direction) ∧
    e.direction = leg.direction ∧ e.price = prior.price ∧
    IsLeast {i | leg.ClosesBeyond bars e.price i} e.barIndex

theorem agreesWith_of_mem {e : Break Float}
    (h : e ∈ detect bars (Leg.ofSwings swings) volatility settings) :
    e.AgreesWith bars (alternate swings) (Leg.ofSwings swings) := by
  obtain ⟨k, leg, prior, hindex, hleg, hprior, hof⟩ := exists_of_mem_along h
  rw [Nat.zero_add] at hindex
  rw [Leg.priorPivot?_ofSwings hleg] at hprior
  cases k with
  | zero => cases hprior
  | succ k =>
    have hlabel := (Leg.joins_of_getElem? hleg).label_eq
    rw [hprior, Option.map_some, SwingLabel.of_eq_ofBreak hof.passes] at hlabel
    refine ⟨k, leg, prior, hindex, hleg, hprior, ?_, hof.direction_eq, hof.price_eq, ?_⟩
    · rw [hof.direction_eq]
      exact hlabel
    · rw [hof.price_eq]
      exact hof.closes

/-- When leg number `k + 1` of legs between pivots has a break. -/
theorem exists_mem_detect_iff {prior : Swing Float}
    (hfinite : ∀ s ∈ swings, Scalar.isFinite s.price = true)
    (hleg : (Leg.ofSwings swings)[k + 1]? = some leg)
    (hprior : (alternate swings)[k]? = some prior) :
    (∃ e ∈ detect bars (Leg.ofSwings swings) volatility settings, e.legIndex = k + 1) ↔
      (leg.label = some .higherHigh ∨ leg.label = some .lowerLow) ∧
        IsLarge settings volatility leg ∧ ∃ i, leg.ClosesBeyond bars prior.price i := by
  obtain ⟨hstart, hstop⟩ := Leg.ends_mem_of_mem_ofSwings (List.mem_of_getElem? hleg)
  have hlabel := (Leg.joins_of_getElem? hleg).label_eq
  rw [pivotBefore?, hprior, Option.map_some] at hlabel
  have hlevel : priorPivot? none (Leg.ofSwings swings) (k + 1) = some prior :=
    (Leg.priorPivot?_ofSwings hleg).trans hprior
  have hbreak : (∃ e ∈ detect bars (Leg.ofSwings swings) volatility settings,
      e.legIndex = 0 + (k + 1)) ↔ _ := exists_mem_along_iff
  rw [Nat.zero_add] at hbreak
  rw [hbreak, isLarge_iff (hfinite _ hstart) (hfinite _ hstop), hlabel, Option.some.injEq,
    Option.some.injEq, SwingLabel.of_mem_iff]
  simp only [hleg, hlevel, Option.some.injEq, exists_and_left, exists_eq_left']

/-- What breaks, labels and pivots have to do with each other. -/
structure Agrees (bars : List (Bar Float)) (swings : List (Swing Float)) (volatility : Float)
    (settings : StructureSettings Float) (pivots : List (Swing Float)) (legs : List (Leg Float))
    (events : List (Break Float)) : Prop where
  /-- Each longest run of one kind leaves the first of its most extreme swings. -/
  pivots_firstExtreme : List.Forall₂ Swing.IsFirstExtreme (Swing.runs swings) pivots
  pivots_turn : pivots.IsChain fun a b => a.kind ≠ b.kind
  pivots_settled : alternate pivots = pivots
  length_legs : legs.length = pivots.length - 1
  legs_join : ∀ k (leg : Leg Float), legs[k]? = some leg → leg.Joins pivots k
  events_agree : ∀ e ∈ events, e.AgreesWith bars pivots legs
  exists_event_iff : ∀ k leg, legs[k + 1]? = some leg → ∃ prior, pivots[k]? = some prior ∧
    ((∃ e ∈ events, e.legIndex = k + 1) ↔
      (leg.label = some .higherHigh ∨ leg.label = some .lowerLow) ∧
        IsLarge settings volatility leg ∧ ∃ i, leg.ClosesBeyond bars prior.price i)

/-- **Pivots, labels and breaks agree.** Swings with finite prices leave the first extremes of their
runs as pivots, legs join neighbouring pivots and are labelled by the pivot before their start, and
a leg breaks this pivot exactly if it is labelled a higher high or a lower low, is large and closes
beyond it. The break is at the first such close. -/
theorem detect_agrees (bars : List (Bar Float)) (swings : List (Swing Float)) (volatility : Float)
    (settings : StructureSettings Float)
    (hfinite : ∀ s ∈ swings, Scalar.isFinite s.price = true) :
    Agrees bars swings volatility settings (alternate swings) (Leg.ofSwings swings)
      (detect bars (Leg.ofSwings swings) volatility settings) where
  pivots_firstExtreme := Swing.forall₂_alternate hfinite
  pivots_turn := isChain_alternate swings
  pivots_settled := alternate_alternate swings
  length_legs := Leg.length_legsAlong none (alternate swings)
  legs_join _ _ := Leg.joins_of_getElem?
  events_agree _ := agreesWith_of_mem
  exists_event_iff k leg hleg := by
    obtain ⟨hlt, -⟩ := List.getElem?_eq_some_iff.1 (Leg.joins_of_getElem? hleg).start_eq
    have hprior : (alternate swings)[k]? = some (alternate swings)[k] :=
      List.getElem?_eq_getElem (by omega)
    exact ⟨_, hprior, exists_mem_detect_iff hfinite hleg hprior⟩

/-- Swings of `turningBars` that end in three highs, the last two equal. -/
def risingSwings : List (Swing Float) :=
  [⟨1, .ofSeconds 60, 100.0, .low, 1⟩, ⟨2, .ofSeconds 120, 110.0, .high, 1⟩,
    ⟨3, .ofSeconds 180, 105.0, .low, 1⟩, ⟨4, .ofSeconds 240, 115.0, .high, 1⟩,
    ⟨6, .ofSeconds 360, 120.0, .high, 1⟩, ⟨6, .ofSeconds 360, 120.0, .high, 2⟩]

/-- The last leg goes to the first of the equal highs, and breaks the high before it on the way. -/
theorem detect_agrees_rising :
    let legs := Leg.ofSwings risingSwings
    let events := detect turningBars legs 5.0 turningSettings.structural
    (∀ s ∈ risingSwings, Scalar.isFinite s.price = true) ∧
      legs.map (fun l => (l.stop.index, l.stop.strength, l.label)) =
        [(2, 1, none), (3, 1, some .higherLow), (6, 1, some .higherHigh)] ∧
      events.map (fun e => (e.legIndex, e.barIndex)) = [(2, 4)] ∧
      Agrees turningBars risingSwings 5.0 turningSettings.structural (alternate risingSwings) legs
        events := by
  have hfinite : ∀ s ∈ risingSwings, Scalar.isFinite s.price = true := by decide +kernel
  exact ⟨hfinite, by decide, by decide,
    detect_agrees turningBars risingSwings 5.0 turningSettings.structural hfinite⟩

/-- Three bars so high that the middle of two of their prices is beyond all finite numbers. -/
def loftyBars : List (Bar Float) :=
  [(1e308, 1e308, 9e307, 9e307), (9e307, 9e307, 9e307, 9e307),
    (9e307, 1.2e308, 9e307, 1.1e308)].zipIdx.map
      fun ((opening, high, low, close), i) =>
        ⟨.ofSeconds (60 * i), opening, high, low, close, 100.0⟩

def loftySwings : List (Swing Float) :=
  [⟨0, .ofSeconds 0, 1e308, .high, 1⟩, ⟨1, .ofSeconds 60, 9e307, .low, 1⟩,
    ⟨2, .ofSeconds 120, 1.2e308, .high, 1⟩]

/-- Without a volatility, and with no share of an infinite middle to exceed, the threshold is no
number. Then the leg breaks, though its amplitude does not exceed the threshold. -/
theorem detect_lofty :
    let settings := { StructureSettings.standard with breakShare := (0.0 : Float) }
    let volatility : Float := 0.0 / 0.0
    let legs := Leg.ofSwings loftySwings
    (∀ s ∈ loftySwings, Scalar.isFinite s.price = true) ∧
      (∀ s ∈ loftySwings, s.index < loftyBars.length) ∧
      ∃ e ∈ detect loftyBars legs volatility settings, ∃ leg ∈ legs[e.legIndex]?,
        ¬threshold settings volatility leg < leg.amplitude := by
  decide +kernel

end Break

end PriceAction
