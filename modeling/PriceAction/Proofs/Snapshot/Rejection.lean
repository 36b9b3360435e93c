import Mathlib.Data.List.Forall2
import Mathlib.Order.Bounds.Basic
import PriceAction.Proofs.Scalar.Lawful
import PriceAction.Proofs.Snapshot.Sanitation

/-!
# Which bars are kept, and why the others are not

Sanitation compares a bar with the last one that was kept. Its clock, the time of that bar, is the
latest time of all well-formed bars so far (`IsClock`), and a malformed bar never moves it. So a bar
is kept exactly if it is well formed and later than all well-formed bars before it, and every other
bar is set aside with the first fault that it has (`sanitize_runningMaxima`).
-/

namespace PriceAction

variable {α : Type} [Scalar α]

namespace Bar

/-! ## Well-formed bars -/

/-- Whether the high and the low enclose the opening and the close. -/
structure IsConsistent (b : Bar α) : Prop where
  low_le : b.low ≤ Scalar.min b.opening b.close
  le_high : Scalar.max b.opening b.close ≤ b.high
  low_le_high : b.low ≤ b.high

/-- Whether the numbers of a bar are finite, its high and low enclose its opening and close, and its
volume is not negative. -/
structure WellFormed (b : Bar α) : Prop where
  finite : ∀ x ∈ [b.opening, b.high, b.low, b.close, b.volume], Scalar.isFinite x = true
  consistent : b.IsConsistent
  volume_nonneg : 0.0 ≤ b.volume

/-- Whether a bar is well formed and later than all well-formed bars before it. -/
def Leads (earlier : List (Bar α)) (b : Bar α) : Prop :=
  b.WellFormed ∧ ∀ a ∈ earlier, a.WellFormed → a.time < b.time

/-- The faults for which the bar at a position may be set aside: what is wrong with the bar itself
comes first, in the order of the cases, and then that it comes too late. -/
inductive Fails (earlier : List (Bar α)) (index : Nat) (b : Bar α) : BarFault α → Prop
  | nonFinite
    (finite : ¬∀ x ∈ [b.opening, b.high, b.low, b.close, b.volume], Scalar.isFinite x = true) :
    Fails earlier index b (.nonFinite index b.time)
  | inconsistent
    (finite : ∀ x ∈ [b.opening, b.high, b.low, b.close, b.volume], Scalar.isFinite x = true)
    (consistent : ¬b.IsConsistent) :
    Fails earlier index b (.inconsistent index b.time b.high b.low)
  | negativeVolume
    (finite : ∀ x ∈ [b.opening, b.high, b.low, b.close, b.volume], Scalar.isFinite x = true)
    (consistent : b.IsConsistent) (volume : b.volume < 0.0) :
    Fails earlier index b (.negativeVolume index b.time)
  | outOfOrder {previous : Instant} (wellFormed : b.WellFormed)
    (latest : IsGreatest {t | ∃ a ∈ earlier, a.WellFormed ∧ a.time = t} previous)
    (time_le : b.time ≤ previous) :
    Fails earlier index b (.outOfOrder index b.time previous)

variable {earlier : List (Bar α)} {index : Nat} {b : Bar α} {fault : BarFault α}

theorem Fails.index_eq (h : b.Fails earlier index fault) : fault.index = index := by
  cases h <;> rfl

theorem isFinite_iff :
    b.isFinite = true ↔
      ∀ x ∈ [b.opening, b.high, b.low, b.close, b.volume], Scalar.isFinite x = true :=
  List.all_eq_true

theorem Fails.not_leads [LawfulScalar α] (h : b.Fails earlier index fault) : ¬b.Leads earlier := by
  rintro ⟨hformed, hlater⟩
  cases h with
  | nonFinite hfinite => exact hfinite hformed.finite
  | inconsistent hfinite hconsistent => exact hconsistent hformed.consistent
  | negativeVolume hfinite hconsistent hvolume =>
    exact LawfulScalar.lt_irrefl _ (LawfulScalar.lt_of_le_of_lt hformed.volume_nonneg hvolume)
  | outOfOrder hformed' hlatest hle =>
    obtain ⟨⟨a, ha, haformed, rfl⟩, -⟩ := hlatest
    exact (hlater a ha haformed).not_ge hle

theorem isInconsistent_iff [LawfulScalar α] (hfinite : b.isFinite = true) :
    b.isInconsistent = true ↔ ¬b.IsConsistent := by
  have hnumbers := isFinite_iff.1 hfinite
  have hopening := hnumbers b.opening (by simp)
  have hclose := hnumbers b.close (by simp)
  have hhigh := hnumbers b.high (by simp)
  have hlow := hnumbers b.low (by simp)
  have hconsistent : b.IsConsistent ↔
      ¬b.high < b.low ∧ ¬b.high < b.bodyHigh ∧ ¬b.bodyLow < b.low := by
    rw [bodyHigh, bodyLow, ← LawfulScalar.le_iff_not_lt hlow hhigh,
      ← LawfulScalar.le_iff_not_lt (LawfulScalar.isFinite_max hopening hclose) hhigh,
      ← LawfulScalar.le_iff_not_lt hlow (LawfulScalar.isFinite_min hopening hclose)]
    exact ⟨fun h => ⟨h.low_le_high, h.le_high, h.low_le⟩, fun h => ⟨h.2.2, h.2.1, h.1⟩⟩
  simp only [isInconsistent, Bool.or_eq_true, decide_eq_true_eq, hconsistent]
  tauto

/-! ## One bar -/

variable {earlier : List (Bar Float)} {b : Bar Float} {fault : BarFault Float}

theorem volume_nonneg_iff (hfinite : b.isFinite = true) : 0.0 ≤ b.volume ↔ ¬b.volume < 0.0 :=
  LawfulScalar.le_iff_not_lt (by decide) (isFinite_iff.1 hfinite b.volume (by simp))

theorem isWellFormed_iff : b.isWellFormed = true ↔ b.WellFormed := by
  rw [isWellFormed, Bool.and_eq_true, Bool.and_eq_true, and_assoc]
  constructor
  · rintro ⟨hfinite, hconsistent, hvolume⟩
    rw [Bool.not_eq_true', ← Bool.not_eq_true, isInconsistent_iff hfinite, not_not] at hconsistent
    rw [Bool.not_eq_true', decide_eq_false_iff_not, ← volume_nonneg_iff hfinite] at hvolume
    exact ⟨isFinite_iff.1 hfinite, hconsistent, hvolume⟩
  · rintro ⟨hfinite, hconsistent, hvolume⟩
    rw [← isFinite_iff] at hfinite
    rw [Bool.not_eq_true', ← Bool.not_eq_true, isInconsistent_iff hfinite, not_not,
      Bool.not_eq_true', decide_eq_false_iff_not, ← volume_nonneg_iff hfinite]
    exact ⟨hfinite, hconsistent, hvolume⟩

instance : Decidable b.WellFormed := decidable_of_iff _ isWellFormed_iff

instance : Decidable (b.Leads earlier) :=
  inferInstanceAs (Decidable (b.WellFormed ∧ ∀ a ∈ earlier, a.WellFormed → a.time < b.time))

end Bar

/-! ## The clock -/

/-- Whether a time is the latest time of the well-formed bars of a list. -/
structure IsClock (earlier : List (Bar α)) (clock : Option Instant) : Prop where
  reached : ∀ t ∈ clock, ∃ a ∈ earlier, a.WellFormed ∧ a.time = t
  time_le : ∀ a ∈ earlier, a.WellFormed → ∃ t ∈ clock, a.time ≤ t

namespace IsClock

variable {earlier : List (Bar α)} {clock : Option Instant} {b : Bar α}

theorem nil : IsClock ([] : List (Bar α)) none where
  reached := nofun
  time_le := nofun

theorem leads_iff (h : IsClock earlier clock) :
    b.Leads earlier ↔ b.WellFormed ∧ ∀ t ∈ clock, t < b.time := by
  refine and_congr_right fun _ => ⟨fun hlater t ht => ?_, fun hlater a ha hformed => ?_⟩
  · obtain ⟨a, ha, hformed, rfl⟩ := h.reached t ht
    exact hlater a ha hformed
  · obtain ⟨t, ht, hle⟩ := h.time_le a ha hformed
    exact lt_of_le_of_lt hle (hlater t ht)

theorem isGreatest {t : Instant} (h : IsClock earlier (some t)) :
    IsGreatest {t | ∃ a ∈ earlier, a.WellFormed ∧ a.time = t} t := by
  refine ⟨h.reached t rfl, ?_⟩
  rintro _ ⟨a, ha, hformed, rfl⟩
  obtain ⟨t', ht', hle⟩ := h.time_le a ha hformed
  cases ht'
  exact hle

theorem concat_of_leads (hb : b.Leads earlier) : IsClock (earlier ++ [b]) (some b.time) where
  reached t ht := by
    cases ht
    exact ⟨b, by simp, hb.1, rfl⟩
  time_le a ha hformed := by
    refine ⟨b.time, rfl, ?_⟩
    rcases List.mem_append.1 ha with ha | ha
    · exact (hb.2 a ha hformed).le
    · rw [List.mem_singleton.1 ha]

theorem concat_of_not_leads (h : IsClock earlier clock) (hb : ¬b.Leads earlier) :
    IsClock (earlier ++ [b]) clock where
  reached t ht := by
    obtain ⟨a, ha, hformed, htime⟩ := h.reached t ht
    exact ⟨a, List.mem_append_left _ ha, hformed, htime⟩
  time_le a ha hformed := by
    rcases List.mem_append.1 ha with ha | ha
    · exact h.time_le a ha hformed
    · rw [List.mem_singleton.1 ha] at hformed ⊢
      rw [h.leads_iff, not_and] at hb
      obtain ⟨t, ht, hle⟩ : ∃ t ∈ clock, ¬t < b.time := by simpa using hb hformed
      exact ⟨t, ht, not_lt.1 hle⟩

end IsClock

namespace Bar

variable {earlier : List (Bar Float)} {clock : Option Instant} {index : Nat} {b : Bar Float}
  {fault : BarFault Float}

theorem fault?_eq_none_iff_leads (h : IsClock earlier clock) :
    b.fault? index clock = none ↔ b.Leads earlier := by
  rw [fault?_eq_none_iff, isWellFormed_iff, h.leads_iff]

/-- The fault of a bar is the first that it has. -/
theorem fails_of_fault? (h : IsClock earlier clock) (hfault : b.fault? index clock = some fault) :
    b.Fails earlier index fault := by
  unfold fault? at hfault
  split at hfault
  · next hfinite =>
    cases hfault
    exact .nonFinite (by rwa [← isFinite_iff, Bool.not_eq_true, ← Bool.not_eq_true'])
  next hfinite =>
  rw [Bool.not_eq_true', Bool.not_eq_false] at hfinite
  split at hfault
  · next hinconsistent =>
    cases hfault
    exact .inconsistent (isFinite_iff.1 hfinite) ((isInconsistent_iff hfinite).1 hinconsistent)
  next hconsistent =>
  rw [isInconsistent_iff hfinite, not_not] at hconsistent
  split at hfault
  · next hvolume =>
    cases hfault
    exact .negativeVolume (isFinite_iff.1 hfinite) hconsistent hvolume
  next hvolume =>
  rw [← volume_nonneg_iff hfinite] at hvolume
  split at hfault
  · next t =>
    obtain ⟨hle, hfault⟩ := Option.ite_none_right_eq_some.1 hfault
    cases hfault
    exact .outOfOrder ⟨isFinite_iff.1 hfinite, hconsistent, hvolume⟩ h.isGreatest hle
  · cases hfault

end Bar

/-! ## A list of bars -/

/-- From any bar on, given the clock: what is kept and what is set aside. -/
theorem sanitizeFrom_spec {bars earlier rest : List (Bar Float)} {clock : Option Instant}
    (hclock : IsClock earlier clock) (hbars : bars = earlier ++ rest) :
    (sanitizeFrom earlier.length clock rest).clean =
        ((rest.zipIdx earlier.length).filter fun x => x.1.Leads (bars.take x.2)).map (·.1) ∧
      List.Forall₂ (fun x fault => x.1.Fails (bars.take x.2) x.2 fault)
        ((rest.zipIdx earlier.length).filter fun x => ¬x.1.Leads (bars.take x.2))
        (sanitizeFrom earlier.length clock rest).rejected := by
  -- the list is fixed; each step moves a bar from the rest to the earlier ones, with their clock
  induction rest generalizing earlier clock with
  | nil => exact ⟨rfl, .nil⟩
  | cons b rest ih =>
    have hearlier : bars.take earlier.length = earlier := by rw [hbars, List.take_left]
    have hbars' : bars = earlier ++ [b] ++ rest := by rw [hbars, List.append_assoc]; rfl
    have hlength : (earlier ++ [b]).length = earlier.length + 1 := List.length_append
    rw [sanitizeFrom, List.zipIdx_cons]
    cases hfault : b.fault? earlier.length clock with
    | none =>
      have hleads := (Bar.fault?_eq_none_iff_leads hclock).1 hfault
      obtain ⟨hclean, hrejected⟩ := ih (IsClock.concat_of_leads hleads) hbars'
      rw [hlength] at hclean hrejected
      rw [List.filter_cons_of_pos (by simpa [hearlier] using hleads),
        List.filter_cons_of_neg (by simpa [hearlier] using hleads)]
      exact ⟨congrArg (b :: ·) hclean, hrejected⟩
    | some fault =>
      have hfails := Bar.fails_of_fault? hclock hfault
      have hleads := hfails.not_leads
      obtain ⟨hclean, hrejected⟩ := ih (hclock.concat_of_not_leads hleads) hbars'
      rw [hlength] at hclean hrejected
      rw [List.filter_cons_of_neg (by simpa [hearlier] using hleads),
        List.filter_cons_of_pos (by simpa [hearlier] using hleads)]
      exact ⟨hclean, .cons (by rwa [hearlier]) hrejected⟩

/-- **What sanitation keeps.** The bars that are kept are the well-formed ones that are later than
all well-formed bars before them. Every other position is among the faults once, in ascending order,
with the first fault that its bar has. Of the bars that are kept none is set aside again. -/
theorem sanitize_runningMaxima (bars : List (Bar Float)) :
    (sanitize bars).clean =
        (bars.zipIdx.filter fun x => x.1.Leads (bars.take x.2)).map (·.1) ∧
      (sanitize bars).clean.Pairwise (fun a b => a.time < b.time) ∧
      List.Forall₂ (fun x fault => x.1.Fails (bars.take x.2) x.2 fault)
        (bars.zipIdx.filter fun x => ¬x.1.Leads (bars.take x.2)) (sanitize bars).rejected ∧
      (sanitize bars).rejected.map (·.index) =
        (bars.zipIdx.filter fun x => ¬x.1.Leads (bars.take x.2)).map (·.2) ∧
      sanitize (sanitize bars).clean = ⟨(sanitize bars).clean, []⟩ := by
  obtain ⟨hclean, hrejected⟩ := sanitizeFrom_spec IsClock.nil (List.nil_append bars).symm
  refine ⟨hclean, (isClean_sanitize bars).ascending, hrejected, ?_, sanitize_clean bars⟩
  rw [← List.forall₂_eq_eq_eq, List.forall₂_map_left_iff, List.forall₂_map_right_iff]
  exact hrejected.flip.imp fun _ _ hfails => hfails.index_eq

end PriceAction
