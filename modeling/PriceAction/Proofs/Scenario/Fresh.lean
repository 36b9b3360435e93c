import PriceAction.Proofs.Scenario.Reflection
import PriceAction.Snapshot.Limits

/-!
# Stale and repeated observations

A history of a store lists observations with their symbols. `fresh` keeps those later than all
before them of the same symbol. `observeAll?_fresh` runs a store over a history and over its fresh
part side by side: the records agree but for their transitions, and one run leaves the calendar
exactly if the other does.
-/

namespace PriceAction

variable {α : Type}

/-! ## Histories of a store -/

/-- The observations of one symbol. -/
def ofSymbol (symbol : String) (history : List (String × Observation α)) : List (Observation α) :=
  (history.filter (·.1 = symbol)).map (·.2)

theorem ofSymbol_concat_self (history : List (String × Observation α)) (symbol : String)
    (o : Observation α) :
    ofSymbol symbol (history ++ [(symbol, o)]) = ofSymbol symbol history ++ [o] := by
  simp [ofSymbol]

theorem ofSymbol_concat_of_ne (history : List (String × Observation α)) {symbol other : String}
    (h : other ≠ symbol) (o : Observation α) :
    ofSymbol other (history ++ [(symbol, o)]) = ofSymbol other history := by
  simp [ofSymbol, h.symm]

/-- The entries of a history that are fresh, given those that came before. -/
def freshAfter : (seen history : List (String × Observation α)) → List (String × Observation α)
  | _, [] => []
  | seen, e :: rest =>
    if e.2.IsNew (ofSymbol e.1 seen) then e :: freshAfter (seen ++ [e]) rest
    else freshAfter (seen ++ [e]) rest

/-- The observations later than all before them of the same symbol. -/
def fresh (history : List (String × Observation α)) : List (String × Observation α) :=
  freshAfter [] history

theorem freshAfter_append (seen xs ys : List (String × Observation α)) :
    freshAfter seen (xs ++ ys) = freshAfter seen xs ++ freshAfter (seen ++ xs) ys := by
  induction xs generalizing seen with
  | nil => simp [freshAfter]
  | cons e rest ih =>
    simp only [List.cons_append, freshAfter, ih, List.append_assoc]
    split <;> rfl

theorem fresh_concat (history : List (String × Observation α)) (symbol : String)
    (o : Observation α) :
    fresh (history ++ [(symbol, o)]) =
      if o.IsNew (ofSymbol symbol history) then fresh history ++ [(symbol, o)]
      else fresh history := by
  rw [fresh, freshAfter_append, List.nil_append]
  show fresh history ++ (if o.IsNew (ofSymbol symbol history) then [(symbol, o)] else []) = _
  split <;> simp

/-! ## Records that differ in their transition -/

namespace StableRecord

def SameButTransition (r r' : StableRecord α) : Prop :=
  ∃ t, r' = { r with lastTransition := t }

theorem SameButTransition.refl (r : StableRecord α) : r.SameButTransition r :=
  ⟨r.lastTransition, rfl⟩

theorem SameButTransition.trans {r₁ r₂ r₃ : StableRecord α} (h : r₁.SameButTransition r₂)
    (h' : r₂.SameButTransition r₃) : r₁.SameButTransition r₃ := by
  obtain ⟨t, rfl⟩ := h
  obtain ⟨t', rfl⟩ := h'
  exact ⟨t', rfl⟩

variable [Scalar α]

/-- The transition is written and never read. -/
theorem SameButTransition.observe_eq {r r' : StableRecord α} (h : r.SameButTransition r')
    (settings : StabilitySettings α) {o : Observation α} (hnew : r.lastSeen < o.time) :
    r.observe settings o = r'.observe settings o := by
  obtain ⟨t, rfl⟩ := h
  have hne : o.time ≠ r.lastSeen := ne_of_gt hnew
  have hle : ¬o.time < r.lastSeen := lt_asymm hnew
  simp only [observe, hne, hle, if_false]
  split <;> rfl

theorem observe_sameButTransition (settings : StabilitySettings α) {r : StableRecord α}
    {o : Observation α} (hold : ¬r.lastSeen < o.time) :
    (r.observe settings o).SameButTransition r := by
  rcases lt_or_eq_of_le (not_lt.1 hold) with hlt | heq
  · refine ⟨r.lastTransition, ?_⟩
    simp [observe, ne_of_lt hlt, hlt]
  · rw [observe, if_pos heq]
    exact .refl r

end StableRecord

/-! ## Stores that differ in their transitions -/

namespace Store

structure SameButTransitions (s s' : Store α) : Prop where
  settings_eq : s.settings = s'.settings
  rel_get? : ∀ symbol,
    Option.Rel StableRecord.SameButTransition (s.get? symbol) (s'.get? symbol)

theorem SameButTransitions.refl (s : Store α) : s.SameButTransitions s := by
  refine ⟨rfl, fun symbol => ?_⟩
  cases s.get? symbol with
  | none => exact .none
  | some r => exact .some (.refl r)

theorem SameButTransitions.trans {s₁ s₂ s₃ : Store α} (h : s₁.SameButTransitions s₂)
    (h' : s₂.SameButTransitions s₃) : s₁.SameButTransitions s₃ := by
  refine ⟨h.settings_eq.trans h'.settings_eq, fun symbol => ?_⟩
  have hrel := h.rel_get? symbol
  have hrel' := h'.rel_get? symbol
  revert hrel hrel'
  generalize s₁.get? symbol = x, s₂.get? symbol = y, s₃.get? symbol = z
  rintro (h₁ | _) (h₂ | _)
  · exact .some (h₁.trans h₂)
  · exact .none

/-- What a store knows of its history: the record of each symbol reflects its observations and
stays in the calendar. -/
structure Tells (s : Store α) (history : List (String × Observation α)) : Prop where
  unseen : ∀ symbol, s.get? symbol = none → ofSymbol symbol history = []
  reflects : ∀ symbol r, s.get? symbol = some r →
    Reflects s.settings (ofSymbol symbol history) r
  fits : ∀ symbol r, s.get? symbol = some r → r.nextSwitchAt.inCalendar = true

theorem tells_empty (settings : StabilitySettings α) : (empty settings).Tells [] where
  unseen _ _ := rfl
  reflects _ _ h := by cases h
  fits _ _ h := by cases h

variable [Scalar α] {s s' : Store α} {symbol : String} {o : Observation α}

/-- The store after one entry of a history, if it stays within the calendar. -/
def enter? (s : Store α) (e : String × Observation α) : Option (Store α) :=
  Store.observe? s e.1 e.2

theorem enter?_eq_some_iff :
    s.enter? (symbol, o) = some s' ↔
      (s.nextRecord symbol o).nextSwitchAt.inCalendar = true ∧ s.observe symbol o = s' := by
  rw [enter?, Store.observe?, inCalendar]
  split <;> simp [*]

theorem Tells.enter? {history : List (String × Observation α)} (h : s.Tells history)
    (hs' : s.enter? (symbol, o) = some s') : s'.Tells (history ++ [(symbol, o)]) := by
  obtain ⟨hfits, rfl⟩ := enter?_eq_some_iff.1 hs'
  have hown : Reflects s.settings (ofSymbol symbol history ++ [o]) (s.nextRecord symbol o) := by
    rw [nextRecord]
    split
    · next r hr => exact (h.reflects symbol r hr).observe o
    · next hr =>
      rw [h.unseen symbol hr]
      exact .first s.settings o
  refine ⟨fun other hother => ?_, fun other r hr => ?_, fun other r hr => ?_⟩
  · by_cases hne : other = symbol
    · rw [hne, get?_observe] at hother
      cases hother
    · rw [get?_observe_of_ne _ hne] at hother
      rw [ofSymbol_concat_of_ne _ hne, h.unseen other hother]
  · by_cases hne : other = symbol
    · rw [hne, get?_observe] at hr
      cases hr
      rw [hne, ofSymbol_concat_self]
      exact hown
    · rw [get?_observe_of_ne _ hne] at hr
      rw [ofSymbol_concat_of_ne _ hne]
      exact h.reflects other r hr
  · by_cases hne : other = symbol
    · rw [hne, get?_observe] at hr
      cases hr
      exact hfits
    · rw [get?_observe_of_ne _ hne] at hr
      exact h.fits other r hr

/-! ## One observation in both stores -/

/-- A fresh observation leaves the same record, so it fits the calendar in both stores or none. -/
theorem SameButTransitions.enter? (h : s.SameButTransitions s')
    (hnew : ∀ r, s.get? symbol = some r → r.lastSeen < o.time) :
    Option.Rel SameButTransitions (s.enter? (symbol, o)) (s'.enter? (symbol, o)) := by
  have hrecord : s.nextRecord symbol o = s'.nextRecord symbol o := by
    have hrel := h.rel_get? symbol
    rw [nextRecord, nextRecord, h.settings_eq]
    revert hnew hrel
    generalize s.get? symbol = x, s'.get? symbol = y
    rintro hnew (hr | _)
    · exact hr.observe_eq _ (hnew _ rfl)
    · rfl
  have hafter : (s.observe symbol o).SameButTransitions (s'.observe symbol o) := by
    refine ⟨h.settings_eq, fun other => ?_⟩
    by_cases hne : other = symbol
    · rw [hne, get?_observe, get?_observe, hrecord]
      exact .some (.refl _)
    · rw [get?_observe_of_ne _ hne, get?_observe_of_ne _ hne]
      exact h.rel_get? other
  rw [Store.enter?, Store.enter?, Store.observe?, Store.observe?, inCalendar, inCalendar, hrecord]
  split
  · exact .some hafter
  · exact .none

/-- An observation that is not fresh fits the calendar and changes at most a transition. -/
theorem enter?_of_not_new {r : StableRecord α} (hr : s.get? symbol = some r)
    (hfits : r.nextSwitchAt.inCalendar = true) (hold : ¬r.lastSeen < o.time) :
    ∃ s', s.enter? (symbol, o) = some s' ∧ s'.SameButTransitions s := by
  have hsame := r.observe_sameButTransition s.settings (o := o) hold
  have hrecord : s.nextRecord symbol o = r.observe s.settings o := by
    rw [nextRecord, hr]
  refine ⟨s.observe symbol o, enter?_eq_some_iff.2 ⟨?_, rfl⟩, rfl, fun other => ?_⟩
  · obtain ⟨t, ht⟩ := hsame
    rw [hrecord]
    rw [ht] at hfits
    exact hfits
  · by_cases hne : other = symbol
    · rw [hne, get?_observe, hrecord, hr]
      exact .some hsame
    · rw [get?_observe_of_ne _ hne]
      exact (SameButTransitions.refl s).rel_get? other

/-! ## Runs -/

/-- The store after a history, if it stays within the calendar. -/
def observeAll? (s : Store α) (history : List (String × Observation α)) : Option (Store α) :=
  history.foldlM enter? s

theorem observeAll?_concat (s : Store α) (history : List (String × Observation α))
    (symbol : String) (o : Observation α) :
    s.observeAll? (history ++ [(symbol, o)]) =
      (s.observeAll? history).bind fun s' => s'.enter? (symbol, o) := by
  simp [observeAll?, List.foldlM_append]

theorem tells_observeAll? (settings : StabilitySettings α)
    (history : List (String × Observation α)) :
    ∀ s, (empty settings).observeAll? history = some s → s.Tells history := by
  induction history using List.reverseRecOn with
  | nil =>
    intro s hs
    cases hs
    exact tells_empty settings
  | append_singleton history e ih =>
    intro s' hs'
    rw [observeAll?_concat, Option.bind_eq_some_iff] at hs'
    obtain ⟨s, hs, hnext⟩ := hs'
    exact (ih s hs).enter? hnext

omit [Scalar α] in
theorem isNew_ofSymbol_iff {history : List (String × Observation α)} (h : s.Tells history) :
    o.IsNew (ofSymbol symbol history) ↔ ∀ r, s.get? symbol = some r → r.lastSeen < o.time := by
  cases hr : s.get? symbol with
  | none => simp [h.unseen symbol hr, Observation.IsNew]
  | some r => simp [(h.reflects symbol r hr).isNew_iff]

/-- Leaving out what is not fresh changes nothing but transitions. -/
theorem observeAll?_fresh (settings : StabilitySettings α)
    (history : List (String × Observation α)) :
    Option.Rel SameButTransitions ((empty settings).observeAll? history)
      ((empty settings).observeAll? (fresh history)) := by
  induction history using List.reverseRecOn with
  | nil => exact .some (.refl _)
  | append_singleton history e ih =>
    obtain ⟨symbol, o⟩ := e
    have htells := tells_observeAll? settings history
    rw [observeAll?_concat, fresh_concat]
    revert ih htells
    generalize (empty settings).observeAll? history = x,
      hy : (empty settings).observeAll? (fresh history) = y
    rintro (@⟨s, s', hsame⟩ | _) htells
    · have hs := htells s rfl
      split
      · next hnew =>
        rw [observeAll?_concat, hy]
        exact hsame.enter? ((isNew_ofSymbol_iff hs).1 hnew)
      · next hold =>
        rw [isNew_ofSymbol_iff hs] at hold
        push Not at hold
        obtain ⟨r, hr, hlate⟩ := hold
        obtain ⟨t, ht, hafter⟩ :=
          enter?_of_not_new hr (hs.fits symbol r hr) (not_lt.2 hlate)
        rw [hy, Option.bind_some, ht]
        exact .some (hafter.trans hsame)
    · split
      · rw [observeAll?_concat, hy]
        exact .none
      · rw [hy]
        exact .none

end Store

end PriceAction
