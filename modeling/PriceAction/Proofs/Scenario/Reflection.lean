import PriceAction.Proofs.Scenario.Exits
import PriceAction.Proofs.Scenario.History

/-!
# What a record knows of its history

`Reflects` ties every field of a record to the history it was made from. A first observation
establishes it, each of the ways in which an observation can end keeps it, and so every run has it.
-/

namespace PriceAction

variable {α : Type}

/-- A candidate counts the streak of its key, of which the raw decision is the latest. -/
structure Candidate.Follows (c : Candidate α) (history : List (Observation α))
    (raw : Decision α) : Prop where
  key_eq : c.key = raw.key
  confidence_eq : c.confidence = raw.confidence
  count_eq : c.count = (streak history c.key).length
  since_eq : (streak history c.key).head?.map (·.time) = some c.since

/-- Every field of a record, told from the history. -/
structure Reflects (settings : StabilitySettings α) (history : List (Observation α))
    (r : StableRecord α) : Prop where
  raw_last : ∃ last, (accepted history).getLast? = some last ∧ r.raw = last.raw
  stable_last : lastDecision? history r.stable.key = some r.stable
  seen_mem : ∃ o ∈ history, o.time = r.lastSeen
  seen_le : ∀ o ∈ history, o.time ≤ r.lastSeen
  pending_none_iff : r.pending = none ↔ r.raw.key = r.stable.key
  candidate : ∀ c, r.pending = some c → c.Follows history r.raw
  since_le : r.stableSince ≤ r.lastSeen
  deadline : r.nextSwitchAt = r.stableSince.plus settings.cooldown
  required_settled : r.pending = none → r.required = settings.confirmations
  required_pending : r.pending ≠ none → ∃ last, (accepted history).getLast? = some last ∧
    r.required = max 1 (settings.confirmations - settings.waivedFor last)

namespace Reflects

variable {settings : StabilitySettings α} {history : List (Observation α)} {r : StableRecord α}
  {o : Observation α}

theorem isNew_iff (h : Reflects settings history r) : o.IsNew history ↔ r.lastSeen < o.time := by
  constructor
  · intro hnew
    obtain ⟨p, hp, htime⟩ := h.seen_mem
    rw [← htime]
    exact hnew p hp
  · intro hlt p hp
    exact lt_of_le_of_lt (h.seen_le p hp) hlt

theorem streak_eq_nil_of_raw (h : Reflects settings history r) {key : Scenario × Option Direction}
    (hkey : r.raw.key ≠ key) : streak history key = [] := by
  obtain ⟨last, hlast, hraw⟩ := h.raw_last
  exact streak_eq_nil hlast (hraw ▸ hkey)

theorem first (settings : StabilitySettings α) (o : Observation α) :
    Reflects settings [o] (.first settings o) where
  raw_last := ⟨o, rfl, rfl⟩
  stable_last := by simp [StableRecord.first, lastDecision?, accepted, acceptedAfter,
    Observation.IsNew]
  seen_mem := ⟨o, List.mem_singleton_self o, rfl⟩
  seen_le p hp := by rw [List.mem_singleton.1 hp]; exact le_refl o.time
  pending_none_iff := iff_of_true rfl rfl
  candidate c hc := by cases hc
  since_le := le_refl o.time
  deadline := rfl
  required_settled _ := rfl
  required_pending hne := absurd rfl hne

/-- An observation that is not new leaves everything but the transition. -/
theorem ignored (h : Reflects settings history r) (hle : o.time ≤ r.lastSeen) (t : Transition) :
    Reflects settings (history ++ [o]) { r with lastTransition := t } := by
  have hold : accepted (history ++ [o]) = accepted history := by
    rw [accepted_concat, if_neg]
    rw [h.isNew_iff]
    exact not_lt.2 hle
  have hstreak : ∀ key, streak (history ++ [o]) key = streak history key := by
    intro key
    rw [streak, hold, streak]
  refine ⟨?_, ?_, ?_, ?_, h.pending_none_iff, ?_, h.since_le, h.deadline, h.required_settled, ?_⟩
  · rw [hold]
    exact h.raw_last
  · rw [lastDecision?, hold]
    exact h.stable_last
  · obtain ⟨p, hp, htime⟩ := h.seen_mem
    exact ⟨p, List.mem_append_left _ hp, htime⟩
  · intro p hp
    rcases List.mem_append.1 hp with hp | hp
    · exact h.seen_le p hp
    · rw [List.mem_singleton.1 hp]
      exact hle
  · intro c hc
    obtain ⟨hkey, hconf, hcount, hsince⟩ := h.candidate c hc
    rw [← hstreak] at hcount hsince
    exact ⟨hkey, hconf, hcount, hsince⟩
  · rw [hold]
    exact h.required_pending

/-! ## New observations -/

theorem getLast?_accepted_concat (hnew : o.IsNew history) :
    (accepted (history ++ [o])).getLast? = some o := by
  rw [accepted_concat, if_pos hnew, List.getLast?_concat]

theorem seen_mem_concat (history : List (Observation α)) (o : Observation α) :
    ∃ p ∈ history ++ [o], p.time = o.time :=
  ⟨o, List.mem_append_right _ (List.mem_singleton_self o), rfl⟩

theorem seen_le_concat (hnew : o.IsNew history) : ∀ p ∈ history ++ [o], p.time ≤ o.time := by
  intro p hp
  rcases List.mem_append.1 hp with hp | hp
  · exact le_of_lt (hnew p hp)
  · rw [List.mem_singleton.1 hp]

theorem since_le_concat (h : Reflects settings history r) (hnew : o.IsNew history) :
    r.stableSince ≤ o.time :=
  le_trans h.since_le (le_of_lt (h.isNew_iff.1 hnew))

theorem ofObservation_follows (h : Reflects settings history r) (hnew : o.IsNew history)
    (hraw : r.raw.key ≠ o.raw.key) :
    (Candidate.ofObservation o).Follows (history ++ [o]) o.raw := by
  have hstreak : streak (history ++ [o]) (Candidate.ofObservation o).key = [o] := by
    show streak (history ++ [o]) o.raw.key = [o]
    rw [streak_concat_self hnew, h.streak_eq_nil_of_raw hraw, List.nil_append]
  refine ⟨rfl, rfl, ?_, ?_⟩
  · rw [hstreak]
    rfl
  · rw [hstreak]
    rfl

theorem next_follows (h : Reflects settings history r) (hnew : o.IsNew history)
    (hkey : o.raw.key ≠ r.stable.key) :
    (Candidate.next r.pending o).Follows (history ++ [o]) o.raw := by
  rcases hpending : r.pending with _ | c
  · rw [Candidate.next_none]
    exact h.ofObservation_follows hnew (h.pending_none_iff.1 hpending ▸ hkey.symm)
  · obtain ⟨hraw, -, hcount, hsince⟩ := h.candidate c hpending
    by_cases hc : c.key = o.raw.key
    · rw [Candidate.next_some_of_eq hc]
      have hstreak : streak (history ++ [o]) c.key = streak history c.key ++ [o] := by
        rw [hc]
        exact streak_concat_self hnew
      refine ⟨hc, rfl, ?_, ?_⟩
      · show c.count + 1 = (streak (history ++ [o]) c.key).length
        rw [hstreak, List.length_append, hcount, List.length_singleton]
      · show (streak (history ++ [o]) c.key).head?.map (·.time) = some c.since
        rw [hstreak, List.head?_append]
        cases hs : streak history c.key with
        | nil => simp [hs] at hsince
        | cons p rest => simpa [hs] using hsince
    · rw [Candidate.next_some_of_ne hc]
      exact h.ofObservation_follows hnew (hraw ▸ hc)

theorem confirm (h : Reflects settings history r) (hnew : o.IsNew history) :
    Reflects settings (history ++ [o]) (r.confirm settings o) where
  raw_last := ⟨o, getLast?_accepted_concat hnew, rfl⟩
  stable_last := lastDecision?_concat_self hnew
  seen_mem := seen_mem_concat history o
  seen_le := seen_le_concat hnew
  pending_none_iff := iff_of_true rfl rfl
  candidate c hc := by cases hc
  since_le := h.since_le_concat hnew
  deadline := h.deadline
  required_settled _ := rfl
  required_pending hne := absurd rfl hne

variable [Scalar α]

theorem hold (h : Reflects settings history r) (hnew : o.IsNew history)
    (hkey : o.raw.key ≠ r.stable.key) :
    Reflects settings (history ++ [o]) (r.hold settings o) where
  raw_last := ⟨o, getLast?_accepted_concat hnew, rfl⟩
  stable_last := by
    show lastDecision? (history ++ [o]) r.stable.key = some r.stable
    rw [lastDecision?_concat_of_ne hnew hkey]
    exact h.stable_last
  seen_mem := seen_mem_concat history o
  seen_le := seen_le_concat hnew
  pending_none_iff := iff_of_false (Option.some_ne_none _) hkey
  candidate c hc := by
    rw [← Option.some.inj hc]
    exact h.next_follows hnew hkey
  since_le := h.since_le_concat hnew
  deadline := h.deadline
  required_settled hnone := absurd hnone (Option.some_ne_none _)
  required_pending _ := ⟨o, getLast?_accepted_concat hnew, settings.requiredFor_eq o⟩

omit [Scalar α] in
theorem switch (settings : StabilitySettings α) (hnew : o.IsNew history) :
    Reflects settings (history ++ [o]) (StableRecord.switch settings o) where
  raw_last := ⟨o, getLast?_accepted_concat hnew, rfl⟩
  stable_last := lastDecision?_concat_self hnew
  seen_mem := seen_mem_concat history o
  seen_le := seen_le_concat hnew
  pending_none_iff := iff_of_true rfl rfl
  candidate c hc := by cases hc
  since_le := le_refl o.time
  deadline := rfl
  required_settled _ := rfl
  required_pending hne := absurd rfl hne

theorem observe (h : Reflects settings history r) (o : Observation α) :
    Reflects settings (history ++ [o]) (r.observe settings o) := by
  rcases r.observe_cases settings o with ⟨heq, hr⟩ | ⟨hlt, hr⟩ | ⟨hgt, hkey, hr⟩ |
    ⟨hgt, hkey, -, hr⟩ | ⟨hgt, -, -, hr⟩ <;> rw [hr]
  · exact h.ignored (le_of_eq heq) r.lastTransition
  · exact h.ignored (le_of_lt hlt) .outOfOrder
  · exact h.confirm (h.isNew_iff.2 hgt)
  · exact h.hold (h.isNew_iff.2 hgt) hkey
  · exact switch settings (h.isNew_iff.2 hgt)

end Reflects

theorem StableRecord.reflects_run [Scalar α] (settings : StabilitySettings α)
    (start : Observation α) (later : List (Observation α)) :
    Reflects settings (start :: later) (run settings start later) := by
  induction later using List.reverseRecOn with
  | nil => exact .first settings start
  | append_singleton later o ih =>
    rw [run_concat]
    exact ih.observe o

/-- **Every field of a reached record is truthful.** Whatever was observed, in whatever order of
times, the pending candidate, the raw and the stable decision, the times and the confirmations are
those that the history of accepted observations gives. -/
theorem StableRecord.run_truthful [Scalar α] (settings : StabilitySettings α)
    (start : Observation α) (later : List (Observation α)) :
    let history := start :: later
    let r := run settings start later
    (r.pending = none ↔ r.raw.key = r.stable.key) ∧
    (r.raw.key = r.stable.key ↔ r.isSettled = true) ∧
    (∀ c, r.pending = some c →
      (c.scenario, c.direction) = r.raw.key ∧ r.raw.key ≠ r.stable.key ∧
      c.confidence = r.raw.confidence ∧ 1 ≤ c.count ∧
      c.count = (streak history r.raw.key).length ∧
      (streak history r.raw.key).head?.map (·.time) = some c.since) ∧
    (accepted history).getLast?.map (·.raw) = some r.raw ∧
    lastDecision? history r.stable.key = some r.stable ∧
    (∃ o ∈ history, o.time = r.lastSeen) ∧ (∀ o ∈ history, o.time ≤ r.lastSeen) ∧
    r.stableSince ≤ r.lastSeen ∧
    r.nextSwitchAt = r.stableSince.plus settings.cooldown ∧
    (r.pending = none → r.required = settings.confirmations) ∧
    (r.pending ≠ none → ∃ d, (d = 0 ∨ d = settings.microDiscount) ∧
      r.required = max 1 (settings.confirmations - d)) := by
  intro history r
  have h : Reflects settings history r := reflects_run settings start later
  refine ⟨h.pending_none_iff, ?_, ?_, ?_, h.stable_last, h.seen_mem, h.seen_le, h.since_le,
    h.deadline, h.required_settled, ?_⟩
  · constructor
    · intro hkey
      rw [isSettled, h.pending_none_iff.2 hkey]
      simpa using hkey
    · intro hsettled
      rw [isSettled, Bool.and_eq_true] at hsettled
      simpa using hsettled.2
  · intro c hc
    obtain ⟨hkey, hconf, hcount, hsince⟩ := h.candidate c hc
    rw [hkey] at hcount hsince
    refine ⟨hkey, ?_, hconf, ?_, hcount, hsince⟩
    · intro heq
      rw [h.pending_none_iff.2 heq] at hc
      cases hc
    · rw [hcount]
      rw [Option.map_eq_some_iff] at hsince
      obtain ⟨p, hp, -⟩ := hsince
      exact List.length_pos_of_mem (List.mem_of_mem_head? hp)
  · obtain ⟨last, hlast, hraw⟩ := h.raw_last
    rw [hlast, hraw]
    rfl
  · intro hpending
    obtain ⟨last, -, hrequired⟩ := h.required_pending hpending
    exact ⟨settings.waivedFor last, settings.waivedFor_eq last, hrequired⟩

end PriceAction
