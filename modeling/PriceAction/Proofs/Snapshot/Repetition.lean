import PriceAction.Proofs.Register
import PriceAction.Proofs.Scenario.Fresh

/-!
# Repeated snapshots

An observation made twice is made once, for a record and for a store. So a snapshot taken again
equals the first and leaves the store as it is; together with `Store.observeAll?_fresh` this says
that stale and repeated observations are harmless.
-/

namespace PriceAction

variable {α : Type} [Scalar α]

theorem StableRecord.observe_of_time_eq (settings : StabilitySettings α) {r : StableRecord α}
    {o : Observation α} (h : o.time = r.lastSeen) : r.observe settings o = r := by
  rw [observe, if_pos h]

theorem StableRecord.observe_observe (settings : StabilitySettings α) (r : StableRecord α)
    (o : Observation α) :
    (r.observe settings o).observe settings o = r.observe settings o := by
  rcases r.observe_cases settings o with ⟨-, hr⟩ | ⟨hlt, hr⟩ | ⟨-, -, hr⟩ | ⟨-, -, -, hr⟩ |
    ⟨-, -, -, hr⟩
  · rw [hr, hr]
  · rw [hr, observe]
    simp [ne_of_lt hlt, hlt]
  -- the other three ends record the time of the observation
  · rw [hr, observe_of_time_eq settings rfl]
  · rw [hr, observe_of_time_eq settings rfl]
  · rw [hr, observe_of_time_eq settings rfl]

namespace Store

variable (s : Store α) (symbol : String) (o : Observation α)

theorem nextRecord_observe : (s.observe symbol o).nextRecord symbol o = s.nextRecord symbol o := by
  have hagain : (s.nextRecord symbol o).observe s.settings o = s.nextRecord symbol o := by
    rw [nextRecord]
    split
    · next r _ => exact r.observe_observe s.settings o
    · exact StableRecord.observe_of_time_eq _ rfl
  rw [nextRecord, get?_observe]
  exact hagain

theorem observe_observe : (s.observe symbol o).observe symbol o = s.observe symbol o := by
  have hget : (s.observe symbol o).records.get? symbol = some (s.nextRecord symbol o) :=
    s.get?_observe symbol o
  rw [observe, nextRecord_observe, Register.insert_of_get? hget]

end Store

theorem Analysis.stabilize_stabilize (a : Analysis α) (store : Store α) :
    a.stabilize (a.stabilize store).2 = a.stabilize store := by
  rw [stabilize, stabilize]
  cases a.observation? with
  | none => rfl
  | some o => simp only [Store.observe_observe]

theorem Analysis.stabilize?_stabilize? {a : Analysis α} {store : Store α}
    {x : Snapshot α × Store α} (h : a.stabilize? store = some x) :
    a.stabilize? x.2 = some x := by
  rw [stabilize?] at h ⊢
  cases ho : a.observation? with
  | none =>
    simp only [ho, Option.some.injEq] at h ⊢
    rw [← h, stabilize_stabilize]
  | some o =>
    simp only [ho, Option.ite_none_right_eq_some, Option.some.injEq] at h ⊢
    obtain ⟨hfits, rfl⟩ := h
    have hstore : (a.stabilize store).2 = store.observe a.details.symbol o := by
      rw [stabilize, ho]
    refine ⟨?_, a.stabilize_stabilize store⟩
    rw [hstore, Store.inCalendar, Store.nextRecord_observe]
    exact hfits

/-- **Stale and repeated observations are harmless.** A store that leaves out all observations
that are not later than every earlier one of their symbol ends with the same records apart from
their transitions, and a snapshot taken twice in a row gives the same snapshot and the same store
as taken once. -/
theorem repetition_harmless :
    (∀ (settings : StabilitySettings α) (history : List (String × Observation α)),
      Option.Rel Store.SameButTransitions ((Store.empty settings).observeAll? history)
        ((Store.empty settings).observeAll? (fresh history))) ∧
    ∀ (m : Market α) (settings : Settings α) (store : Store α),
      ((m.snapshot? settings store).bind fun x => m.snapshot? settings x.2) =
        m.snapshot? settings store := by
  refine ⟨Store.observeAll?_fresh, fun m settings store => ?_⟩
  cases h : m.snapshot? settings store with
  | none => rfl
  | some x =>
    obtain ⟨a, ha, hx⟩ := Option.bind_eq_some_iff.1 h
    have hagain : a.stabilize? x.2 = some x := Analysis.stabilize?_stabilize? hx
    show (m.analyze? settings).bind (fun a => a.stabilize? x.2) = some x
    rw [ha, Option.bind_some, hagain]

end PriceAction
