import PriceAction.Proofs.Scenario.Reflection

/-!
# Hysteresis over whole runs

`StableRecord.switchesOn_iff` says of any run exactly which observations switch the stable
scenario. It speaks of the history alone: of the accepted observations and of the last switch.
-/

namespace PriceAction

variable {α : Type} [Scalar α]

/-! ## The switches of a run -/

/-- The observations of a run that switched. -/
def StableRecord.switches (settings : StabilitySettings α) :
    StableRecord α → List (Observation α) → List (Observation α)
  | _, [] => []
  | r, o :: rest =>
    if r.SwitchesOn settings o then o :: switches settings (r.observe settings o) rest
    else switches settings (r.observe settings o) rest

/-- The last observation that switched, the first one if none did. -/
def lastSwitch (settings : StabilitySettings α) (start : Observation α)
    (later : List (Observation α)) : Observation α :=
  ((StableRecord.first settings start).switches settings later).getLastD start

namespace StableRecord

theorem switches_append (settings : StabilitySettings α) (r : StableRecord α)
    (xs ys : List (Observation α)) :
    r.switches settings (xs ++ ys) =
      r.switches settings xs ++ (xs.foldl (observe settings) r).switches settings ys := by
  induction xs generalizing r with
  | nil => rfl
  | cons o rest ih =>
    rw [List.cons_append, switches, switches, ih, List.foldl_cons]
    split <;> rfl

variable (settings : StabilitySettings α) (start : Observation α) (later : List (Observation α))

theorem lastSwitch_concat (o : Observation α) :
    lastSwitch settings start (later ++ [o]) =
      if (run settings start later).SwitchesOn settings o then o
      else lastSwitch settings start later := by
  rw [lastSwitch, switches_append, ← run, switches]
  split
  · rw [switches, List.getLastD_concat]
  · rw [switches, List.append_nil, lastSwitch]

theorem stableSince_run :
    (run settings start later).stableSince = (lastSwitch settings start later).time := by
  induction later using List.reverseRecOn with
  | nil => rfl
  | append_singleton later o ih =>
    rw [run_concat, lastSwitch_concat]
    by_cases hswitch : (run settings start later).SwitchesOn settings o
    · rw [if_pos hswitch, observe_of_switchesOn _ _ _ hswitch]
      rfl
    · rw [if_neg hswitch, (observe_of_not_switchesOn _ _ _ hswitch).2.1, ih]

/-! ## The law -/

theorem count_next_run {o : Observation α} (hnew : o.IsNew (start :: later))
    (hkey : o.raw.key ≠ (run settings start later).stable.key) :
    (Candidate.next (run settings start later).pending o).count =
      (streak (start :: later ++ [o]) o.raw.key).length := by
  have hfollows := (reflects_run settings start later).next_follows hnew hkey
  rw [← hfollows.key_eq]
  exact hfollows.count_eq

/-- **The law of the stable scenario.** An observation switches exactly if it is new, decides for
another key than the stable one, the cooldown since the last switch is over, the accepted
observations end in as many decisions for its key as it needs, and it is confident enough against
a named stable scenario. It is then stable from its time on; all others leave the stable key and
its times. -/
theorem switchesOn_iff (o : Observation α) :
    let history := start :: later
    let r := run settings start later
    (r.SwitchesOn settings o ↔
      o.IsNew history ∧ o.raw.key ≠ r.stable.key ∧
      (lastSwitch settings start later).time.plus settings.cooldown ≤ o.time ∧
      List.replicate (max 1 (settings.confirmations - settings.waivedFor o)) o.raw.key <:+
        (accepted (history ++ [o])).map (·.raw.key) ∧
      (r.stable.scenario = .unclear ∨
        ¬o.raw.confidence < r.stable.confidence + settings.margin)) ∧
    (r.SwitchesOn settings o →
      (r.observe settings o).stable = o.raw ∧ (r.observe settings o).stableSince = o.time) ∧
    (¬r.SwitchesOn settings o →
      (r.observe settings o).stable.key = r.stable.key ∧
      (r.observe settings o).stableSince = r.stableSince ∧
      (r.observe settings o).nextSwitchAt = r.nextSwitchAt) := by
  intro history r
  have h : Reflects settings history r := reflects_run settings start later
  refine ⟨?_, ?_, r.observe_of_not_switchesOn settings o⟩
  · rw [switchesOn_iff_verdict, ← h.isNew_iff, verdict_eq_switched_iff, h.deadline,
      stableSince_run, replicate_suffix_map_iff]
    refine and_congr_right fun hnew => and_congr_right fun hkey => ?_
    rw [count_next_run settings start later hnew hkey, streak]
  · intro hswitch
    rw [observe_of_switchesOn _ _ _ hswitch]
    exact ⟨rfl, rfl⟩

end StableRecord

end PriceAction
