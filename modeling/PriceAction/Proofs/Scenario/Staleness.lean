import PriceAction.Proofs.Snapshot.Repetition
import PriceAction.Scalar.Floating

/-!
# Which observations are reported as out of order

A stale observation is reported as out of order, and the report of a repeated one is the report of
the observation that it repeats. But a stale observation writes its transition over the one that is
repeated, so that a repetition after it is reported as out of order too
(`Store.transition_report_iff`). Only with no stale observation in between does a repetition report
what was accepted.
-/

namespace PriceAction

variable {α : Type}

/-- Whether an observation is earlier than one of a history. -/
def Observation.IsStale (o : Observation α) (history : List (Observation α)) : Prop :=
  ∃ p ∈ history, o.time < p.time

instance (o : Observation α) (history : List (Observation α)) : Decidable (o.IsStale history) :=
  inferInstanceAs (Decidable (∃ p ∈ history, o.time < p.time))

/-- Whether no observation at the time `t` was followed by an earlier one. -/
def Undisturbed (t : Instant) (history : List (Observation α)) : Prop :=
  history.Pairwise fun a p => a.time = t → t ≤ p.time

instance (t : Instant) (history : List (Observation α)) : Decidable (Undisturbed t history) :=
  inferInstanceAs (Decidable (List.Pairwise _ _))

theorem undisturbed_concat {t : Instant} {history : List (Observation α)} {o : Observation α} :
    Undisturbed t (history ++ [o]) ↔
      Undisturbed t history ∧ ((∃ a ∈ history, a.time = t) → t ≤ o.time) := by
  simp [Undisturbed, List.pairwise_append]

theorem undisturbed_of_forall_ne {t : Instant} {history : List (Observation α)}
    (h : ∀ a ∈ history, a.time ≠ t) : Undisturbed t history :=
  List.pairwise_of_forall_mem_list fun a ha _ _ heq => absurd heq (h a ha)

/-- At the latest time of a history that ends with an observation, either it is stale or it is
itself at this time. -/
theorem not_undisturbed_concat_iff {t : Instant} {history : List (Observation α)}
    {o : Observation α} (hmem : ∃ p ∈ history ++ [o], p.time = t)
    (hle : ∀ p ∈ history ++ [o], p.time ≤ t) :
    ¬Undisturbed t (history ++ [o]) ↔ o.IsStale history ∨ ¬Undisturbed o.time history := by
  obtain ⟨p, hp, rfl⟩ := hmem
  have hbefore : ∀ q ∈ history, q.time ≤ p.time := fun q hq => hle q (List.mem_append_left _ hq)
  rw [undisturbed_concat]
  rcases (hle o (by simp)).eq_or_lt with heq | hlt
  · have hfresh : ¬o.IsStale history := fun ⟨q, hq, hlt⟩ => (hbefore q hq).not_gt (heq ▸ hlt)
    simp [heq, hfresh]
  · have hpast : p ∈ history := by
      rcases List.mem_append.1 hp with hp | hp
      · exact hp
      · exact absurd (List.mem_singleton.1 hp ▸ hlt) (lt_irrefl _)
    refine iff_of_true (fun h => ?_) (.inl ⟨p, hpast, hlt⟩)
    exact (h.2 ⟨p, hpast, rfl⟩).not_gt hlt

variable [Scalar α]

namespace StableRecord

variable {settings : StabilitySettings α} {history : List (Observation α)} {r : StableRecord α}
  {o : Observation α}

/-! ## Records of a history -/

/-- The record of a history, if something was observed. -/
def ofHistory? (settings : StabilitySettings α) : List (Observation α) → Option (StableRecord α)
  | [] => none
  | start :: later => some (run settings start later)

theorem exists_ofHistory?_concat (settings : StabilitySettings α)
    (history : List (Observation α)) (o : Observation α) :
    ∃ r, ofHistory? settings (history ++ [o]) = some r := by
  cases history <;> exact ⟨_, rfl⟩

theorem ofHistory?_append {earlier : List (Observation α)}
    (h : ofHistory? settings earlier = some r) (later : List (Observation α)) :
    ofHistory? settings (earlier ++ later) = some (later.foldl (observe settings) r) := by
  cases earlier with
  | nil => cases h
  | cons start rest =>
    cases h
    rw [List.cons_append, ofHistory?, run, List.foldl_append, run]

theorem reflects_ofHistory? (h : ofHistory? settings history = some r) :
    Reflects settings history r := by
  cases history with
  | nil => cases h
  | cons start later =>
    cases h
    exact reflects_run settings start later

theorem foldl_observe_of_time_eq {later : List (Observation α)}
    (h : ∀ p ∈ later, p.time = r.lastSeen) : later.foldl (observe settings) r = r := by
  induction later with
  | nil => rfl
  | cons p rest ih =>
    rw [List.foldl_cons, observe_of_time_eq settings (h p List.mem_cons_self)]
    exact ih fun q hq => h q (List.mem_cons_of_mem p hq)

theorem lastSeen_of_not_isStale (h : ofHistory? settings (history ++ [o]) = some r)
    (ho : ¬o.IsStale history) : r.lastSeen = o.time := by
  have hreflects := reflects_ofHistory? h
  obtain ⟨p, hp, htime⟩ := hreflects.seen_mem
  refine le_antisymm ?_ (hreflects.seen_le o (by simp))
  rw [← htime]
  rcases List.mem_append.1 hp with hp | hp
  · exact not_lt.1 fun hlt => ho ⟨p, hp, hlt⟩
  · rw [List.mem_singleton.1 hp]

/-! ## The transition of a record -/

theorem judge_ne_outOfOrder (settings : StabilitySettings α) (r : StableRecord α)
    (o : Observation α) (c : Candidate α) : r.judge settings o c ≠ .outOfOrder := by
  rw [judge]
  repeat' split
  all_goals decide

/-- One observation more: only a stale one writes that it is out of order, and only one at a new
latest time writes something else. -/
theorem lastTransition_observe (h : Reflects settings history r)
    (hlast : r.lastTransition = .outOfOrder ↔ ¬Undisturbed r.lastSeen history)
    (o : Observation α) :
    (r.observe settings o).lastTransition = .outOfOrder ↔
      ¬Undisturbed (r.observe settings o).lastSeen (history ++ [o]) := by
  have hnew (hgt : r.lastSeen < o.time) : Undisturbed o.time (history ++ [o]) := by
    have hne : ∀ a ∈ history, a.time ≠ o.time := fun a ha =>
      ((h.seen_le a ha).trans_lt hgt).ne
    exact undisturbed_concat.2 ⟨undisturbed_of_forall_ne hne, fun _ => le_refl _⟩
  rcases r.observe_cases settings o with ⟨heq, hr⟩ | ⟨hlt, hr⟩ | ⟨hgt, -, hr⟩ | ⟨hgt, -, -, hr⟩ |
    ⟨hgt, -, -, hr⟩
  · rw [hr, hlast, undisturbed_concat, heq]
    simp
  · rw [hr]
    refine iff_of_true rfl fun hall => ?_
    exact ((undisturbed_concat.1 hall).2 h.seen_mem).not_gt hlt
  -- the other three ends are at a new latest time
  · rw [hr]
    exact iff_of_false nofun (not_not.2 (hnew hgt))
  · rw [hr]
    exact iff_of_false (judge_ne_outOfOrder settings r o _) (not_not.2 (hnew hgt))
  · rw [hr]
    exact iff_of_false nofun (not_not.2 (hnew hgt))

theorem lastTransition_ofHistory? (h : ofHistory? settings history = some r) :
    r.lastTransition = .outOfOrder ↔ ¬Undisturbed r.lastSeen history := by
  cases history with
  | nil => cases h
  | cons start later =>
    cases h
    induction later using List.reverseRecOn with
    | nil => exact iff_of_false nofun (not_not.2 (List.pairwise_singleton ..))
    | append_singleton later o ih =>
      rw [run_concat]
      exact lastTransition_observe (reflects_run settings start later) ih o

end StableRecord

/-! ## Reports of a store -/

namespace Store

/-- The store after a history. -/
def observeEach (s : Store α) (history : List (String × Observation α)) : Store α :=
  history.foldl (fun s e => s.observe e.1 e.2) s

variable (settings : StabilitySettings α) (history : List (String × Observation α))
  (symbol : String) (o : Observation α)

theorem settings_observeEach (s : Store α) : (s.observeEach history).settings = s.settings := by
  induction history generalizing s with
  | nil => rfl
  | cons e rest ih => exact ih (s.observe e.1 e.2)

/-- The record of a symbol comes from the observations of this symbol alone. -/
theorem get?_observeEach : ((empty settings).observeEach history).get? symbol =
    StableRecord.ofHistory? settings (ofSymbol symbol history) := by
  induction history using List.reverseRecOn with
  | nil => rfl
  | append_singleton history e ih =>
    obtain ⟨other, o⟩ := e
    rw [observeEach, List.foldl_concat, ← observeEach]
    by_cases hne : symbol = other
    · subst hne
      rw [get?_observe, nextRecord, ih, settings_observeEach, ofSymbol_concat_self]
      cases hearlier : ofSymbol symbol history with
      | nil => rfl
      | cons start later => exact (StableRecord.ofHistory?_append rfl [o]).symm
    · rw [get?_observe_of_ne _ hne, ih, ofSymbol_concat_of_ne _ hne]

theorem get?_observe_observeEach :
    (((empty settings).observeEach history).observe symbol o).get? symbol =
      StableRecord.ofHistory? settings (ofSymbol symbol history ++ [o]) := by
  have hconcat := get?_observeEach settings (history ++ [(symbol, o)]) symbol
  rwa [observeEach, List.foldl_concat, ← observeEach, ofSymbol_concat_self] at hconcat

/-- **What is reported as out of order.** An observation is reported as out of order exactly if it
is stale, or an observation of its symbol at its time was followed by an earlier one. A repetition
that only repetitions came before is answered as the observation that it repeats. -/
theorem transition_report_iff :
    ∃ r, (((empty settings).observeEach history).observe symbol o).get? symbol = some r ∧
      (r.report.transition = .outOfOrder ↔
        o.IsStale (ofSymbol symbol history) ∨ ¬Undisturbed o.time (ofSymbol symbol history)) ∧
      ∀ before a between, history = before ++ (symbol, a) :: between →
        ¬a.IsStale (ofSymbol symbol before) →
        (∀ p ∈ ofSymbol symbol between, p.time = a.time) → o.time = a.time →
        (((empty settings).observeEach before).observe symbol a).get? symbol = some r := by
  obtain ⟨r, hr⟩ :=
    StableRecord.exists_ofHistory?_concat settings (ofSymbol symbol history) o
  have hreflects := StableRecord.reflects_ofHistory? hr
  refine ⟨r, (get?_observe_observeEach ..).trans hr, ?_, ?_⟩
  · rw [← not_undisturbed_concat_iff hreflects.seen_mem hreflects.seen_le]
    exact StableRecord.lastTransition_ofHistory? hr
  · rintro before a between rfl hfresh hbetween htime
    obtain ⟨r', hr'⟩ := StableRecord.exists_ofHistory?_concat settings (ofSymbol symbol before) a
    have hseen := StableRecord.lastSeen_of_not_isStale hr' hfresh
    have hsplit : ofSymbol symbol (before ++ (symbol, a) :: between) ++ [o] =
        ofSymbol symbol before ++ [a] ++ (ofSymbol symbol between ++ [o]) := by
      simp [ofSymbol]
    rw [hsplit, StableRecord.ofHistory?_append hr', StableRecord.foldl_observe_of_time_eq] at hr
    · rw [get?_observe_observeEach, hr', hr]
    · intro p hp
      rw [hseen]
      rcases List.mem_append.1 hp with hp | hp
      · exact hbetween p hp
      · rw [List.mem_singleton.1 hp, htime]

/-- An undecided observation at a time. -/
def undecidedAt (seconds : Int) : Observation Float :=
  ⟨.unclear .noBias 0.0 [] [], .ofSeconds seconds, none⟩

/-- The transition that the last observation of a symbol is answered with. -/
def answer? (earlier : List (Observation Float)) (o : Observation Float) : Option Transition :=
  let history := earlier.map fun p => ("ES", p)
  ((((empty .standard).observeEach history).observe "ES" o).get? "ES").map (·.report.transition)

/-- The observation at 120 is not stale when it is repeated, but after the stale one at 60 it is no
longer answered as before. -/
theorem answer_after_stale :
    answer? [undecidedAt 0] (undecidedAt 120) = some .matchesStable ∧
      ¬(answer? [undecidedAt 0, undecidedAt 120, undecidedAt 60] (undecidedAt 120) =
          some .outOfOrder ↔
        (undecidedAt 120).IsStale [undecidedAt 0, undecidedAt 120, undecidedAt 60]) := by
  decide

end Store

end PriceAction
