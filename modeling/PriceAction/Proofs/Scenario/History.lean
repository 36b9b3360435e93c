import Mathlib.Data.List.DropRight
import PriceAction.Proofs.Calendar.Order
import PriceAction.Scenario.Stable

/-!
# Histories of observations

A record keeps a counter, a deadline and one candidate, while the laws of the stable scenario speak
of all that was observed. A history lists the observations of a symbol, the earliest first. Those
later than all before them are `accepted`; `streak` and `lastDecision?` read the counter and the
stable decision off them.
-/

namespace PriceAction

variable {α : Type}

/-! ## Accepted observations -/

/-- Whether an observation is later than all of a history. -/
def Observation.IsNew (o : Observation α) (history : List (Observation α)) : Prop :=
  ∀ p ∈ history, p.time < o.time

instance (o : Observation α) (history : List (Observation α)) : Decidable (o.IsNew history) :=
  inferInstanceAs (Decidable (∀ p ∈ history, p.time < o.time))

/-- The accepted observations among those that came after `seen`. -/
def acceptedAfter : (seen history : List (Observation α)) → List (Observation α)
  | _, [] => []
  | seen, o :: rest =>
    if o.IsNew seen then o :: acceptedAfter (seen ++ [o]) rest else acceptedAfter (seen ++ [o]) rest

/-- The observations of a history that were later than all before them. -/
def accepted (history : List (Observation α)) : List (Observation α) :=
  acceptedAfter [] history

theorem acceptedAfter_append (seen xs ys : List (Observation α)) :
    acceptedAfter seen (xs ++ ys) = acceptedAfter seen xs ++ acceptedAfter (seen ++ xs) ys := by
  induction xs generalizing seen with
  | nil => simp [acceptedAfter]
  | cons o rest ih =>
    rw [List.cons_append, acceptedAfter, acceptedAfter, ih, List.append_assoc,
      List.singleton_append]
    split <;> rfl

theorem accepted_concat (history : List (Observation α)) (o : Observation α) :
    accepted (history ++ [o]) =
      if o.IsNew history then accepted history ++ [o] else accepted history := by
  rw [accepted, acceptedAfter_append, List.nil_append]
  show accepted history ++ (if o.IsNew history then [o] else []) = _
  split
  · rfl
  · rw [List.append_nil]

/-! ## Streaks -/

/-- The latest accepted observations as far back as they decide for `key`. -/
def streak (history : List (Observation α)) (key : Scenario × Option Direction) :
    List (Observation α) :=
  (accepted history).rtakeWhile fun o => o.raw.key = key

/-- The latest accepted decision for `key`. -/
def lastDecision? (history : List (Observation α)) (key : Scenario × Option Direction) :
    Option (Decision α) :=
  ((accepted history).reverse.find? fun o => o.raw.key = key).map (·.raw)

section New

variable {history : List (Observation α)} {o : Observation α}

theorem streak_concat_self (h : o.IsNew history) :
    streak (history ++ [o]) o.raw.key = streak history o.raw.key ++ [o] := by
  rw [streak, accepted_concat, if_pos h, List.rtakeWhile_concat_pos _ _ _ (by simp), streak]

theorem lastDecision?_concat_self (h : o.IsNew history) :
    lastDecision? (history ++ [o]) o.raw.key = some o.raw := by
  rw [lastDecision?, accepted_concat, if_pos h, List.reverse_append]
  simp

theorem lastDecision?_concat_of_ne (h : o.IsNew history) {key : Scenario × Option Direction}
    (hkey : o.raw.key ≠ key) :
    lastDecision? (history ++ [o]) key = lastDecision? history key := by
  rw [lastDecision?, accepted_concat, if_pos h, List.reverse_append]
  simp [hkey, lastDecision?]

end New

theorem streak_eq_nil {history : List (Observation α)} {key : Scenario × Option Direction}
    {last : Observation α} (hlast : (accepted history).getLast? = some last)
    (hkey : last.raw.key ≠ key) : streak history key = [] := by
  rw [streak, List.rtakeWhile_eq_nil_iff]
  intro hne
  rw [List.getLast?_eq_some_getLast hne] at hlast
  rw [Option.some.inj hlast]
  simpa using hkey

theorem replicate_suffix_map_iff {β γ : Type} [DecidableEq γ] (f : β → γ) (x : γ) (n : Nat)
    (xs : List β) :
    List.replicate n x <:+ xs.map f ↔ n ≤ (xs.rtakeWhile fun y => f y = x).length := by
  induction xs using List.reverseRecOn generalizing n with
  | nil => simp
  | append_singleton xs y ih =>
    cases n with
    | zero => simp
    | succ n =>
      rw [List.map_append, List.map_singleton, List.replicate_succ', List.rtakeWhile_concat]
      by_cases hy : f y = x
      · rw [hy, List.suffix_append_self_iff, ih, if_pos (by simp)]
        simp
      · rw [if_neg (by simp [hy]), List.suffix_concat_iff]
        constructor
        · rintro (hnil | ⟨t, ht, -⟩)
          · simp at hnil
          · exact absurd (List.append_inj_right' ht rfl) (by simpa using Ne.symm hy)
        · intro hlen
          simp at hlen

/-! ## Runs -/

section Run

variable [Scalar α]

/-- The record after a first observation and those that followed it. -/
def StableRecord.run (settings : StabilitySettings α) (start : Observation α)
    (later : List (Observation α)) : StableRecord α :=
  later.foldl (StableRecord.observe settings) (.first settings start)

theorem StableRecord.run_concat (settings : StabilitySettings α) (start : Observation α)
    (later : List (Observation α)) (o : Observation α) :
    run settings start (later ++ [o]) = (run settings start later).observe settings o := by
  rw [run, List.foldl_append, List.foldl_cons, List.foldl_nil, run]

end Run

end PriceAction
