import Mathlib.Logic.Basic
import PriceAction.Proofs.Calendar.Order
import PriceAction.Scenario.Stable

/-!
# How an observation ends

An observation ends in one of five ways: repeated, outdated, confirming, held back or switching.
`StableRecord.observe_cases` gives each with its condition and the record it leaves; whatever
observations keep is proved by these cases.
-/

namespace PriceAction

variable {α : Type}

/-- Confirmations that an observation waives by a break on the micro timeframe. -/
def StabilitySettings.waivedFor (settings : StabilitySettings α) (o : Observation α) : Nat :=
  if o.micro.isSome ∧ o.micro = o.raw.direction then settings.microDiscount else 0

theorem StabilitySettings.waivedFor_eq (settings : StabilitySettings α) (o : Observation α) :
    settings.waivedFor o = 0 ∨ settings.waivedFor o = settings.microDiscount := by
  rw [waivedFor]
  split
  · exact Or.inr rfl
  · exact Or.inl rfl

theorem StabilitySettings.requiredFor_eq (settings : StabilitySettings α) (o : Observation α) :
    settings.requiredFor o = max 1 (settings.confirmations - settings.waivedFor o) := by
  rw [requiredFor, waivedFor, Nat.max_comm]
  rcases o.micro with _ | m
  · rfl
  · rcases o.raw.direction with _ | d
    · simp
    · simp

/-! ## Candidates -/

namespace Candidate

/-- The candidate that an observation starts. -/
def ofObservation (o : Observation α) : Candidate α where
  scenario := o.raw.scenario
  direction := o.raw.direction
  count := 1
  confidence := o.raw.confidence
  since := o.time

theorem next_none (o : Observation α) : next none o = ofObservation o := rfl

theorem next_some_of_eq {c : Candidate α} {o : Observation α} (hkey : c.key = o.raw.key) :
    next (some c) o = { c with count := c.count + 1, confidence := o.raw.confidence } := by
  rw [next, Option.filter_some, if_pos (by simpa using hkey)]

theorem next_some_of_ne {c : Candidate α} {o : Observation α} (hkey : c.key ≠ o.raw.key) :
    next (some c) o = ofObservation o := by
  rw [next, Option.filter_some, if_neg (by simpa using hkey)]
  rfl

end Candidate

/-! ## The five ends -/

namespace StableRecord

variable [Scalar α]

/-- What becomes of the candidate of an observation. -/
def verdict (settings : StabilitySettings α) (r : StableRecord α) (o : Observation α) :
    Transition :=
  r.judge settings o (Candidate.next r.pending o)

/-- The record after an observation that is held back. -/
def hold (settings : StabilitySettings α) (r : StableRecord α) (o : Observation α) :
    StableRecord α :=
  { r with
    raw := o.raw
    pending := some (Candidate.next r.pending o)
    lastSeen := o.time
    lastTransition := r.verdict settings o
    required := settings.requiredFor o }

omit [Scalar α] in
/-- The record after an observation that switches: as after a first one. -/
def switch (settings : StabilitySettings α) (o : Observation α) : StableRecord α :=
  { first settings o with lastTransition := .switched }

/-- Whether an observation is answered with a switch by its own evaluation. One at the latest time
is not evaluated: it repeats the last answer. -/
def SwitchesOn (settings : StabilitySettings α) (r : StableRecord α) (o : Observation α) : Prop :=
  o.time ≠ r.lastSeen ∧ (r.observe settings o).lastTransition = .switched

instance (settings : StabilitySettings α) (r : StableRecord α) (o : Observation α) :
    Decidable (r.SwitchesOn settings o) :=
  inferInstanceAs (Decidable (_ ∧ _))

variable (settings : StabilitySettings α) (r : StableRecord α) (o : Observation α)

theorem verdict_eq_switched_iff :
    r.verdict settings o = .switched ↔
      r.nextSwitchAt ≤ o.time ∧
      max 1 (settings.confirmations - settings.waivedFor o) ≤ (Candidate.next r.pending o).count ∧
      (r.stable.scenario = .unclear ∨
        ¬o.raw.confidence < r.stable.confidence + settings.margin) := by
  rw [verdict, judge, settings.requiredFor_eq]
  split
  · next hcool => simp [not_le.2 hcool]
  · next hcool =>
    split
    · next hcount =>
      have hmax := Nat.not_le.2 hcount
      simp [hmax]
    · next hcount =>
      have hmax := Nat.not_lt.1 hcount
      split
      · next hconf => simp [hconf.1, hconf.2]
      · next hconf =>
        rw [not_and_or, not_not] at hconf
        exact iff_of_true rfl ⟨not_lt.1 hcool, hmax, hconf⟩

theorem observe_cases :
    (o.time = r.lastSeen ∧ r.observe settings o = r) ∨
    (o.time < r.lastSeen ∧ r.observe settings o = { r with lastTransition := .outOfOrder }) ∨
    (r.lastSeen < o.time ∧ o.raw.key = r.stable.key ∧
      r.observe settings o = r.confirm settings o) ∨
    (r.lastSeen < o.time ∧ o.raw.key ≠ r.stable.key ∧ r.verdict settings o ≠ .switched ∧
      r.observe settings o = r.hold settings o) ∨
    (r.lastSeen < o.time ∧ o.raw.key ≠ r.stable.key ∧ r.verdict settings o = .switched ∧
      r.observe settings o = switch settings o) := by
  rw [observe]
  rcases lt_trichotomy o.time r.lastSeen with hlt | heq | hgt
  · rw [if_neg (ne_of_lt hlt), if_pos hlt]
    exact Or.inr (Or.inl ⟨hlt, rfl⟩)
  · rw [if_pos heq]
    exact Or.inl ⟨heq, rfl⟩
  · rw [if_neg (ne_of_gt hgt), if_neg (lt_asymm hgt)]
    refine Or.inr (Or.inr ?_)
    by_cases hkey : o.raw.key = r.stable.key
    · rw [if_pos hkey]
      exact Or.inl ⟨hgt, hkey, rfl⟩
    · rw [if_neg hkey, contest]
      by_cases hverdict : r.verdict settings o = .switched
      · exact Or.inr (Or.inr ⟨hgt, hkey, hverdict, if_pos hverdict⟩)
      · exact Or.inr (Or.inl ⟨hgt, hkey, hverdict, if_neg hverdict⟩)

theorem stable_observe :
    (r.observe settings o).stable = r.stable ∨ (r.observe settings o).stable = o.raw := by
  rcases r.observe_cases settings o with ⟨-, h⟩ | ⟨-, h⟩ | ⟨-, -, h⟩ | ⟨-, -, -, h⟩ |
    ⟨-, -, -, h⟩ <;> rw [h]
  · exact Or.inl rfl
  · exact Or.inl rfl
  · exact Or.inr rfl
  · exact Or.inl rfl
  · exact Or.inr rfl

theorem switchesOn_iff_verdict :
    r.SwitchesOn settings o ↔
      r.lastSeen < o.time ∧ o.raw.key ≠ r.stable.key ∧ r.verdict settings o = .switched := by
  rw [SwitchesOn]
  rcases r.observe_cases settings o with ⟨heq, hr⟩ | ⟨hlt, hr⟩ | ⟨hgt, hkey, hr⟩ |
    ⟨hgt, hkey, hverdict, hr⟩ | ⟨hgt, hkey, hverdict, hr⟩ <;> rw [hr]
  · exact iff_of_false (fun h => h.1 heq) (fun h => ne_of_gt h.1 heq)
  · exact iff_of_false (fun h => by cases h.2) (fun h => lt_asymm hlt h.1)
  · exact iff_of_false (fun h => by cases h.2) (fun h => h.2.1 hkey)
  · exact iff_of_false (fun h => hverdict h.2) (fun h => hverdict h.2.2)
  · exact iff_of_true ⟨ne_of_gt hgt, rfl⟩ ⟨hgt, hkey, hverdict⟩

theorem observe_of_switchesOn (h : r.SwitchesOn settings o) :
    r.observe settings o = switch settings o := by
  obtain ⟨hgt, hkey, hverdict⟩ := (r.switchesOn_iff_verdict settings o).1 h
  rcases r.observe_cases settings o with ⟨heq, -⟩ | ⟨hlt, -⟩ | ⟨-, hkey', -⟩ |
    ⟨-, -, hverdict', -⟩ | ⟨-, -, -, hr⟩
  · exact absurd heq (ne_of_gt hgt)
  · exact absurd hlt (lt_asymm hgt)
  · exact absurd hkey' hkey
  · exact absurd hverdict hverdict'
  · exact hr

theorem observe_of_not_switchesOn (h : ¬r.SwitchesOn settings o) :
    (r.observe settings o).stable.key = r.stable.key ∧
      (r.observe settings o).stableSince = r.stableSince ∧
      (r.observe settings o).nextSwitchAt = r.nextSwitchAt := by
  rcases r.observe_cases settings o with ⟨-, hr⟩ | ⟨-, hr⟩ | ⟨-, hkey, hr⟩ | ⟨-, -, -, hr⟩ |
    ⟨hgt, hkey, hverdict, -⟩
  · rw [hr]
    exact ⟨rfl, rfl, rfl⟩
  · rw [hr]
    exact ⟨rfl, rfl, rfl⟩
  · rw [hr]
    exact ⟨hkey, rfl, rfl⟩
  · rw [hr]
    exact ⟨rfl, rfl, rfl⟩
  · exact absurd ((r.switchesOn_iff_verdict settings o).2 ⟨hgt, hkey, hverdict⟩) h

end StableRecord

end PriceAction
