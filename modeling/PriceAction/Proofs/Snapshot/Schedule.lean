import Mathlib.Data.List.Induction
import PriceAction.Proofs.Register
import PriceAction.Scalar.Floating
import PriceAction.Snapshot.Engine
import PriceAction.Snapshot.Run

/-!
# Schedules of the engine

A schedule mixes the submission of markets with steps of workers. Whatever the schedule, a worker
has taken the markets of its symbol in turn up to those that wait (`serves_run`). In a batch the
markets of one symbol see that symbol's record alone (`batch_filter`), so a drained engine has
published, symbol by symbol, what one batch over all markets gives.
-/

namespace PriceAction

variable {α : Type}

namespace Engine

/-! ## Schedules -/

inductive Action (α : Type) where
  | submit (m : Market α)
  | work (symbol : String)

/-- The markets that a schedule submits. -/
def submitted : List (Action α) → List (Market α)
  | [] => []
  | .submit m :: rest => m :: submitted rest
  | .work _ :: rest => submitted rest

theorem submitted_append (xs ys : List (Action α)) :
    submitted (xs ++ ys) = submitted xs ++ submitted ys := by
  induction xs with
  | nil => rfl
  | cons x rest ih =>
    cases x with
    | submit m => simp [submitted, ih]
    | work symbol => simp [submitted, ih]

/-- No market waits. -/
def Drained (e : Engine α) : Prop := ∀ entry ∈ e.workers.entries, entry.2.queue = []

instance (e : Engine α) : Decidable e.Drained :=
  inferInstanceAs (Decidable (∀ entry ∈ e.workers.entries, entry.2.queue = []))

theorem Drained.queue_worker {e : Engine α} (h : e.Drained) (symbol : String) :
    (e.worker symbol).queue = [] := by
  rw [worker]
  cases hw : e.workers.get? symbol with
  | none => rfl
  | some w => exact h _ ((Register.get?_eq_some_iff _).1 hw)

section Frame

variable (e : Engine α) (symbol : String) (w : Worker α) (published : List (Snapshot α))

theorem worker_insert :
    (Engine.mk e.settings (e.workers.insert symbol w) published).worker symbol = w := by
  simp [worker]

theorem worker_insert_of_ne {other : String} (hne : other ≠ symbol) :
    (Engine.mk e.settings (e.workers.insert symbol w) published).worker other =
      e.worker other := by
  simp [worker, Register.get?_insert_of_ne _ hne]

end Frame

variable [Scalar α]

def perform (e : Engine α) : Action α → Engine α
  | .submit m => e.submit m
  | .work symbol => e.step symbol

/-- The engine after a schedule. -/
def run (settings : Settings α) (actions : List (Action α)) : Engine α :=
  actions.foldl perform (start settings)

end Engine

variable [Scalar α]

/-! ## Batches -/

theorem Market.symbol_snapshot (m : Market α) (settings : Settings α) (s : Store α) :
    (m.snapshot settings s).1.details.symbol = m.symbol := by
  rw [snapshot, Analysis.stabilize]
  split <;> rfl

theorem batch_concat (settings : Settings α) (markets : List (Market α)) (m : Market α)
    (s : Store α) :
    batch settings (markets ++ [m]) s =
      ((batch settings markets s).1 ++ [(m.snapshot settings (batch settings markets s).2).1],
        (m.snapshot settings (batch settings markets s).2).2) := by
  induction markets generalizing s with
  | nil => rfl
  | cons x rest ih => simp [batch, ih]

/-- Two stores that treat a symbol alike. -/
def Store.AgreeOn (symbol : String) (s s' : Store α) : Prop :=
  s.settings = s'.settings ∧ s.get? symbol = s'.get? symbol

namespace Store.AgreeOn

variable {symbol : String} {s s' : Store α}

theorem observe (h : s.AgreeOn symbol s') (o : Observation α) :
    (s.observe symbol o).AgreeOn symbol (s'.observe symbol o) := by
  obtain ⟨hsettings, hget⟩ := h
  refine ⟨hsettings, ?_⟩
  simp [nextRecord, hsettings, hget]

theorem observe_of_ne (h : s.AgreeOn symbol s') {other : String} (hne : symbol ≠ other)
    (o : Observation α) : (s.observe other o).AgreeOn symbol s' :=
  ⟨h.1, (get?_observe_of_ne s hne o).trans h.2⟩

theorem snapshot {m : Market α} (h : s.AgreeOn m.symbol s') (settings : Settings α) :
    (m.snapshot settings s).1 = (m.snapshot settings s').1 ∧
      (m.snapshot settings s).2.AgreeOn m.symbol (m.snapshot settings s').2 := by
  have hsymbol : (m.analyze settings).details.symbol = m.symbol := rfl
  rw [Market.snapshot, Market.snapshot, Analysis.stabilize, Analysis.stabilize]
  split
  · next o _ =>
    have hafter := h.observe o
    simp only [hsymbol]
    refine ⟨?_, hafter⟩
    rw [hafter.2]
  · exact ⟨rfl, h⟩

theorem snapshot_of_ne {m : Market α} (h : s.AgreeOn symbol s') (hne : m.symbol ≠ symbol)
    (settings : Settings α) : (m.snapshot settings s).2.AgreeOn symbol s' := by
  rw [Market.snapshot, Analysis.stabilize]
  split
  · exact h.observe_of_ne (Ne.symm hne) _
  · exact h

end Store.AgreeOn

theorem batch_filter (settings : Settings α) (symbol : String) (markets : List (Market α))
    {s s' : Store α} (h : s.AgreeOn symbol s') :
    (batch settings markets s).1.filter (·.details.symbol = symbol) =
        (batch settings (markets.filter (·.symbol = symbol)) s').1 ∧
      (batch settings markets s).2.AgreeOn symbol
        (batch settings (markets.filter (·.symbol = symbol)) s').2 := by
  induction markets generalizing s s' with
  | nil => exact ⟨rfl, h⟩
  | cons m rest ih =>
    have hpublished := m.symbol_snapshot settings s
    by_cases hm : m.symbol = symbol
    · subst hm
      obtain ⟨hfirst, hstores⟩ := h.snapshot settings
      obtain ⟨hlater, hend⟩ := ih hstores
      simp only [batch, List.filter_cons, hpublished, decide_true, if_true]
      exact ⟨by rw [hfirst, hlater], hend⟩
    · have hstores := h.snapshot_of_ne hm settings
      simpa [batch, List.filter_cons, hpublished, hm] using ih hstores

namespace Engine

/-! ## What a worker has done -/

/-- The worker of a symbol has taken its markets in turn, up to those that wait. -/
def Serves (settings : Settings α) (e : Engine α) (markets : List (Market α)) (symbol : String) :
    Prop :=
  ∃ taken, markets.filter (·.symbol = symbol) = taken ++ (e.worker symbol).queue ∧
    e.published.filter (·.details.symbol = symbol) =
      (batch settings taken (.empty settings.stability)).1 ∧
    (e.worker symbol).store = (batch settings taken (.empty settings.stability)).2

theorem serves_start (settings : Settings α) (symbol : String) :
    Serves settings (start settings) [] symbol :=
  ⟨[], rfl, rfl, rfl⟩

variable {settings : Settings α} {e : Engine α} {markets : List (Market α)} {symbol : String}

theorem Serves.submit (h : Serves settings e markets symbol) (m : Market α) :
    Serves settings (e.submit m) (markets ++ [m]) symbol := by
  obtain ⟨taken, hqueue, hpublished, hstore⟩ := h
  by_cases hm : m.symbol = symbol
  · subst hm
    refine ⟨taken, ?_, hpublished, ?_⟩
    · rw [Engine.submit, worker_insert]
      simp [hqueue]
    · rw [Engine.submit, worker_insert]
      exact hstore
  · have hother : (e.submit m).worker symbol = e.worker symbol :=
      worker_insert_of_ne _ _ _ _ (Ne.symm hm)
    refine ⟨taken, ?_, hpublished, ?_⟩
    · rw [hother, ← hqueue]
      simp [hm]
    · rw [hother]
      exact hstore

/-- A step takes the first market that waits, which is one of the worker's symbol. -/
theorem Serves.step_self (hsettings : e.settings = settings)
    (h : Serves settings e markets symbol) : Serves settings (e.step symbol) markets symbol := by
  obtain ⟨taken, hqueue, hpublished, hstore⟩ := h
  rw [Engine.step]
  cases hq : (e.worker symbol).queue with
  | nil => exact ⟨taken, hqueue, hpublished, hstore⟩
  | cons m rest =>
    rw [hq] at hqueue
    have hmem : m ∈ markets.filter (·.symbol = symbol) := by simp [hqueue]
    have hm : m.symbol = symbol := by simpa using (List.mem_filter.1 hmem).2
    simp only [hm, if_true]
    refine ⟨taken ++ [m], ?_, ?_, ?_⟩
    · rw [worker_insert, hqueue, List.append_assoc, List.singleton_append]
    · rw [List.filter_append, hpublished, batch_concat, hstore, hsettings]
      simp [m.symbol_snapshot, hm]
    · rw [worker_insert, batch_concat, hstore, hsettings]

theorem Serves.step_of_ne (h : Serves settings e markets symbol) {other : String}
    (hroute : ∀ m ∈ (e.worker other).queue, m.symbol = other) (hne : other ≠ symbol) :
    Serves settings (e.step other) markets symbol := by
  obtain ⟨taken, hqueue, hpublished, hstore⟩ := h
  rw [Engine.step]
  cases hq : (e.worker other).queue with
  | nil => exact ⟨taken, hqueue, hpublished, hstore⟩
  | cons m rest =>
    have hm : m.symbol = other := hroute m (by simp [hq])
    simp only [hm, if_true]
    refine ⟨taken, ?_, ?_, ?_⟩
    · rw [worker_insert_of_ne _ _ _ _ (Ne.symm hne)]
      exact hqueue
    · rw [List.filter_append, hpublished]
      simp [m.symbol_snapshot, hm, hne]
    · rw [worker_insert_of_ne _ _ _ _ (Ne.symm hne)]
      exact hstore

theorem Serves.symbol_of_mem_queue (h : Serves settings e markets symbol) {m : Market α}
    (hm : m ∈ (e.worker symbol).queue) : m.symbol = symbol := by
  obtain ⟨taken, hqueue, -, -⟩ := h
  have hmem : m ∈ markets.filter (·.symbol = symbol) := by simp [hqueue, hm]
  simpa using (List.mem_filter.1 hmem).2

theorem settings_step (e : Engine α) (symbol : String) : (e.step symbol).settings = e.settings := by
  rw [step]
  split
  · rfl
  · dsimp only
    split <;> rfl

theorem serves_run (settings : Settings α) (actions : List (Action α)) :
    (run settings actions).settings = settings ∧
      ∀ symbol, Serves settings (run settings actions) (submitted actions) symbol := by
  induction actions using List.reverseRecOn with
  | nil => exact ⟨rfl, serves_start settings⟩
  | append_singleton actions a ih =>
    obtain ⟨hsettings, hserves⟩ := ih
    have hrun : run settings (actions ++ [a]) = (run settings actions).perform a := by
      simp [run]
    rw [hrun, submitted_append]
    cases a with
    | submit m => exact ⟨hsettings, fun symbol => (hserves symbol).submit m⟩
    | work other =>
      refine ⟨(settings_step _ other).trans hsettings, fun symbol => ?_⟩
      simp only [submitted, List.append_nil]
      by_cases hne : other = symbol
      · subst hne
        exact (hserves other).step_self hsettings
      · exact (hserves symbol).step_of_ne (fun m => (hserves other).symbol_of_mem_queue) hne

/-! ## Records -/

omit [Scalar α] in
theorem mem_records_iff (e : Engine α) (symbol : String) (r : StableRecord α) :
    (symbol, r) ∈ e.records ↔ (e.worker symbol).store.get? symbol = some r := by
  rw [records, worker]
  simp only [List.mem_filterMap, Option.map_eq_some_iff, Prod.mk.injEq, Prod.exists]
  constructor
  · rintro ⟨_, w, hw, _, hr, rfl, rfl⟩
    rw [(Register.get?_eq_some_iff _).2 hw]
    exact hr
  · intro hr
    cases hw : e.workers.get? symbol with
    | none =>
      rw [hw] at hr
      cases hr
    | some w =>
      rw [hw] at hr
      exact ⟨symbol, w, (Register.get?_eq_some_iff _).1 hw, r, hr, rfl, rfl⟩

omit [Scalar α] in
theorem records_ascend (e : Engine α) : KeysAscend e.records := by
  rw [records, KeysAscend, List.pairwise_filterMap]
  refine e.workers.ascending.imp ?_
  rintro ⟨a, v⟩ ⟨b, w⟩ hlt x hx y hy
  simp only [Option.map_eq_some_iff] at hx hy
  obtain ⟨_, _, rfl⟩ := hx
  obtain ⟨_, _, rfl⟩ := hy
  exact hlt

end Engine

theorem Store.nextRecord_observe_of_ne (s : Store α) {a b : String} (hne : a ≠ b)
    (o p : Observation α) : (s.observe b p).nextRecord a o = s.nextRecord a o := by
  rw [nextRecord, get?_observe_of_ne s hne, nextRecord]
  rfl

theorem Store.observe_comm (s : Store α) {a b : String} (hne : a ≠ b) (o p : Observation α) :
    (s.observe a o).observe b p = (s.observe b p).observe a o := by
  rw [observe, nextRecord_observe_of_ne s hne.symm, observe, observe,
    nextRecord_observe_of_ne s hne, observe]
  simp [Register.insert_comm _ hne]

/-- **The engine does what one batch does.** Under every schedule that leaves no market waiting,
the snapshots published for a symbol are those that one batch over all submitted markets gives for
it, and the records are those of the batch's store. An observation leaves the records of other
symbols, so observations of different symbols commute. -/
theorem Engine.refines_batch (settings : Settings α) (actions : List (Engine.Action α))
    (hdrained : (Engine.run settings actions).Drained) :
    let sequential := batch settings (Engine.submitted actions) (.empty settings.stability)
    (∀ symbol, (Engine.run settings actions).published.filter (·.details.symbol = symbol) =
      sequential.1.filter (·.details.symbol = symbol)) ∧
    (Engine.run settings actions).records = sequential.2.records.entries ∧
    ∀ (s : Store α) (a b : String) (o p : Observation α),
      a = b ∨ ((s.observe a o).get? b = s.get? b ∧
        (s.observe a o).observe b p = (s.observe b p).observe a o) := by
  intro sequential
  obtain ⟨-, hserves⟩ := Engine.serves_run settings actions
  have hsame : ∀ symbol,
      (Engine.run settings actions).published.filter (·.details.symbol = symbol) =
        sequential.1.filter (·.details.symbol = symbol) ∧
      ((Engine.run settings actions).worker symbol).store.get? symbol =
        sequential.2.get? symbol := by
    intro symbol
    obtain ⟨taken, hqueue, hpublished, hstore⟩ := hserves symbol
    rw [hdrained.queue_worker, List.append_nil] at hqueue
    have hempty : (Store.empty settings.stability).AgreeOn symbol (.empty settings.stability) :=
      ⟨rfl, rfl⟩
    obtain ⟨hbatch, hagree⟩ := batch_filter settings symbol (Engine.submitted actions) hempty
    rw [hqueue] at hbatch hagree
    rw [hpublished, hstore]
    exact ⟨hbatch.symm, hagree.2.symm⟩
  refine ⟨fun symbol => (hsame symbol).1, ?_, fun s a b o p => ?_⟩
  · apply (Engine.records_ascend _).eq_of_mem_iff sequential.2.records.ascending
    rintro ⟨symbol, r⟩
    rw [Engine.mem_records_iff, (hsame symbol).2, ← Register.get?_eq_some_iff, Store.get?]
  · by_cases hne : a = b
    · exact Or.inl hne
    · exact Or.inr ⟨s.get?_observe_of_ne (Ne.symm hne) o, s.observe_comm hne o p⟩

/-- Two workers, one of which takes its only market between the submissions for the other. -/
theorem Engine.refines_batch_interleaved :
    let market (symbol : String) (close : Float) : Market Float :=
      { symbol := symbol
        primary := ⟨"15m"⟩
        series := Register.empty.insert "15m" [⟨⟨0, 0⟩, 1.0, 2.0, 1.0, close, 1.0⟩]
        context := {} }
    let actions : List (Engine.Action Float) :=
      [.submit (market "EURUSD" 1.5), .submit (market "AUDUSD" 1.5), .work "AUDUSD",
        .submit (market "EURUSD" 1.25), .work "EURUSD", .work "EURUSD"]
    (Engine.run Settings.standard actions).Drained ∧
      (∀ symbol,
        (Engine.run Settings.standard actions).published.filter (·.details.symbol = symbol) =
          (batch Settings.standard (Engine.submitted actions)
            (.empty Settings.standard.stability)).1.filter (·.details.symbol = symbol)) ∧
      (Engine.run Settings.standard actions).records =
        (batch Settings.standard (Engine.submitted actions)
          (.empty Settings.standard.stability)).2.records.entries := by
  intro market actions
  have hdrained : (Engine.run Settings.standard actions).Drained := by decide
  have h := Engine.refines_batch Settings.standard actions hdrained
  exact ⟨hdrained, h.1, h.2.1⟩

end PriceAction
