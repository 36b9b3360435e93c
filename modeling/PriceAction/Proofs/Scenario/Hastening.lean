import PriceAction.Proofs.Scenario.Exits

/-!
# Breaks on the micro timeframe only hasten

Two runs from one record see the same decisions at the same times, and the second is told of more
breaks on the micro timeframe. All that a break can do is to waive confirmations. So the two records
agree but for their answers (`Alike`) until the second run switches, and it switches no later than
the first (`StableRecord.hinted_hastens`).
-/

namespace PriceAction

variable {α : Type}

/-! ## Hints -/

/-- The observation with a break on the micro timeframe, if it was told of none. -/
def Observation.hinted (o : Observation α) (hint : Option Direction) : Observation α :=
  { o with micro := o.micro.or hint }

theorem Candidate.next_hinted (pending : Option (Candidate α)) (o : Observation α)
    (hint : Option Direction) : next pending (o.hinted hint) = next pending o := rfl

theorem StabilitySettings.waivedFor_le_hinted (settings : StabilitySettings α) (o : Observation α)
    (hint : Option Direction) : settings.waivedFor o ≤ settings.waivedFor (o.hinted hint) := by
  obtain ⟨raw, time, micro⟩ := o
  cases micro with
  | none =>
    rw [waivedFor, if_neg (by simp)]
    exact Nat.zero_le _
  | some d => exact Nat.le_refl _

/-! ## Records that are alike -/

namespace StableRecord

/-- Whether two records agree in all but the last transition and the confirmations it asked for. -/
structure Alike (r r' : StableRecord α) : Prop where
  stable : r'.stable = r.stable
  raw : r'.raw = r.raw
  pending : r'.pending = r.pending
  stableSince : r'.stableSince = r.stableSince
  nextSwitchAt : r'.nextSwitchAt = r.nextSwitchAt
  lastSeen : r'.lastSeen = r.lastSeen

theorem Alike.refl (r : StableRecord α) : r.Alike r := ⟨rfl, rfl, rfl, rfl, rfl, rfl⟩

variable [Scalar α] {settings : StabilitySettings α} {r r' : StableRecord α} {o : Observation α}
  {hint : Option Direction}

/-- What an observation leaves when it does not switch. -/
theorem observe_eq_of_not_switchesOn (h : ¬r.SwitchesOn settings o) :
    r.observe settings o =
      if o.time = r.lastSeen then r
      else if o.time < r.lastSeen then { r with lastTransition := .outOfOrder }
      else if o.raw.key = r.stable.key then r.confirm settings o
      else r.hold settings o := by
  rcases r.observe_cases settings o with ⟨heq, hr⟩ | ⟨hlt, hr⟩ | ⟨hgt, hkey, hr⟩ |
    ⟨hgt, hkey, -, hr⟩ | ⟨hgt, hkey, hverdict, -⟩
  · rw [hr, if_pos heq]
  · rw [hr, if_neg (ne_of_lt hlt), if_pos hlt]
  · rw [hr, if_neg (ne_of_gt hgt), if_neg (lt_asymm hgt), if_pos hkey]
  · rw [hr, if_neg (ne_of_gt hgt), if_neg (lt_asymm hgt), if_neg hkey]
  · exact absurd ((r.switchesOn_iff_verdict settings o).2 ⟨hgt, hkey, hverdict⟩) h

namespace Alike

theorem switchesOn_hinted (h : r.Alike r') (hswitch : r.SwitchesOn settings o) :
    r'.SwitchesOn settings (o.hinted hint) := by
  rw [switchesOn_iff_verdict, verdict_eq_switched_iff] at hswitch ⊢
  obtain ⟨hgt, hkey, hcool, hcount, hconfidence⟩ := hswitch
  have hfewer : settings.confirmations - settings.waivedFor (o.hinted hint) ≤
      settings.confirmations - settings.waivedFor o :=
    Nat.sub_le_sub_left (settings.waivedFor_le_hinted o hint) _
  rw [h.lastSeen, h.stable, h.nextSwitchAt, h.pending, Candidate.next_hinted]
  exact ⟨hgt, hkey, hcool, Nat.le_trans (by omega) hcount, hconfidence⟩

/-- One observation more, if it does not switch with the hint. -/
theorem observe (h : r.Alike r') (hswitch : ¬r'.SwitchesOn settings (o.hinted hint)) :
    (r.observe settings o).Alike (r'.observe settings (o.hinted hint)) := by
  have hplain : ¬r.SwitchesOn settings o := fun hs => hswitch (h.switchesOn_hinted hs)
  have hraw : (o.hinted hint).raw = o.raw := rfl
  have htime : (o.hinted hint).time = o.time := rfl
  rw [observe_eq_of_not_switchesOn hplain, observe_eq_of_not_switchesOn hswitch, hraw, htime,
    h.lastSeen, h.stable]
  split
  · exact h
  split
  · exact ⟨rfl, h.raw, h.pending, h.stableSince, h.nextSwitchAt, rfl⟩
  split
  · exact ⟨rfl, rfl, rfl, h.stableSince, h.nextSwitchAt, rfl⟩
  · refine ⟨h.stable, rfl, ?_, h.stableSince, h.nextSwitchAt, rfl⟩
    rw [hold, hold, Candidate.next_hinted, h.pending]

end Alike

/-! ## Runs -/

/-- The record after the first `n` of further observations. -/
def after (settings : StabilitySettings α) (r : StableRecord α) (later : List (Observation α))
    (n : Nat) : StableRecord α :=
  (later.take n).foldl (StableRecord.observe settings) r

/-- Whether the further observation at position `k` switches. -/
def SwitchesAt (settings : StabilitySettings α) (r : StableRecord α)
    (later : List (Observation α)) (k : Nat) : Prop :=
  ∃ o, later[k]? = some o ∧ (after settings r later k).SwitchesOn settings o

/-- Whether the further observation at position `k` is the first that switches. -/
def SwitchesFirstAt (settings : StabilitySettings α) (r : StableRecord α)
    (later : List (Observation α)) (k : Nat) : Prop :=
  SwitchesAt settings r later k ∧ ∀ j < k, ¬SwitchesAt settings r later j

theorem after_succ {later : List (Observation α)} {n : Nat} (h : later[n]? = some o) :
    after settings r later (n + 1) = (after settings r later n).observe settings o := by
  rw [after, List.take_add_one, h, Option.toList_some, List.foldl_append, List.foldl_cons,
    List.foldl_nil, after]

theorem after_succ_of_none {later : List (Observation α)} {n : Nat} (h : later[n]? = none) :
    after settings r later (n + 1) = after settings r later n := by
  rw [after, List.take_add_one, h, Option.toList_none, List.append_nil, after]

theorem alike_after {steps : List (Observation α × Option Direction)} {n : Nat}
    (h : ∀ j < n, ¬SwitchesAt settings r (steps.map fun x => x.1.hinted x.2) j) :
    (after settings r (steps.map (·.1)) n).Alike
      (after settings r (steps.map fun x => x.1.hinted x.2) n) := by
  induction n with
  | zero => exact Alike.refl r
  | succ n ih =>
    have halike := ih fun j hj => h j (Nat.lt_succ_of_lt hj)
    cases hstep : steps[n]? with
    | none =>
      -- past the end of the list nothing changes any more
      rw [after_succ_of_none (by simp [hstep]), after_succ_of_none (by simp [hstep])]
      exact halike
    | some step =>
      have hhinted : (steps.map fun x => x.1.hinted x.2)[n]? = some (step.1.hinted step.2) := by
        simp [hstep]
      rw [after_succ (o := step.1) (by simp [hstep]), after_succ hhinted]
      exact halike.observe fun hswitch => h n (Nat.lt_succ_self n) ⟨_, hhinted, hswitch⟩

/-- **A break on the micro timeframe can only hasten the next switch.** Of two runs from one record,
let the second be told of more breaks. The records agree but for their answers until the second run
switches; it switches no later than the first; and where both switch first, they are equal. -/
theorem hinted_hastens (settings : StabilitySettings α) (r : StableRecord α)
    (steps : List (Observation α × Option Direction)) :
    let plain := steps.map (·.1)
    let hinted := steps.map fun x => x.1.hinted x.2
    (∀ n, (∀ j < n, ¬SwitchesAt settings r hinted j) →
      (after settings r plain n).Alike (after settings r hinted n)) ∧
    (∀ k, SwitchesAt settings r plain k → ∃ j ≤ k, SwitchesAt settings r hinted j) ∧
    (∀ k, SwitchesFirstAt settings r plain k → SwitchesFirstAt settings r hinted k →
      after settings r hinted (k + 1) = after settings r plain (k + 1)) := by
  intro plain hinted
  refine ⟨fun n => alike_after, fun k hplain => ?_, fun k hplain hhinted => ?_⟩
  · by_contra hnone
    have hbefore : ∀ j ≤ k, ¬SwitchesAt settings r hinted j := fun j hj hs => hnone ⟨j, hj, hs⟩
    obtain ⟨o, ho, hswitch⟩ := hplain
    rw [List.getElem?_map] at ho
    obtain ⟨step, hstep, rfl⟩ := Option.map_eq_some_iff.1 ho
    have halike := alike_after (r := r) fun j hj => hbefore j (Nat.le_of_lt hj)
    refine hbefore k (Nat.le_refl k) ⟨step.1.hinted step.2, ?_, halike.switchesOn_hinted hswitch⟩
    rw [List.getElem?_map, hstep, Option.map_some]
  · obtain ⟨⟨o, ho, hswitch⟩, -⟩ := hplain
    obtain ⟨⟨o', ho', hswitch'⟩, -⟩ := hhinted
    rw [List.getElem?_map] at ho ho'
    obtain ⟨step, hstep, rfl⟩ := Option.map_eq_some_iff.1 ho
    rw [hstep, Option.map_some, Option.some.injEq] at ho'
    subst ho'
    rw [after_succ (by rw [List.getElem?_map, hstep]; rfl),
      after_succ (by rw [List.getElem?_map, hstep]; rfl), observe_of_switchesOn _ _ _ hswitch,
      observe_of_switchesOn _ _ _ hswitch']
    rfl

end StableRecord

end PriceAction
