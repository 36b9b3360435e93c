import PriceAction.Proofs.Calendar.Order
import PriceAction.Snapshot.Sanitation

/-!
# What sanitation leaves

The bars that are kept are well formed and strictly ascend in time (`isClean_sanitize`), and of such
bars sanitation rejects none, nor of any latest part of them (`IsClean.prepare_eq`).
-/

namespace PriceAction

variable {α : Type} [Scalar α]

namespace Bar

/-- Whether a bar has no fault of its own. -/
def isWellFormed (b : Bar α) : Bool :=
  b.isFinite && !b.isInconsistent && !decide (b.volume < 0.0)

theorem not_lt_of_isWellFormed {b : Bar α} (h : b.isWellFormed = true) :
    ¬b.high < b.low ∧ ¬b.high < b.bodyHigh ∧ ¬b.bodyLow < b.low := by
  simp only [isWellFormed, isInconsistent, Bool.and_eq_true, Bool.not_eq_true',
    Bool.or_eq_false_iff, decide_eq_false_iff_not, and_assoc] at h
  exact ⟨h.2.1, h.2.2.1, h.2.2.2.1⟩

theorem fault?_eq_none_iff {index : Nat} {b : Bar α} {previous : Option Instant} :
    b.fault? index previous = none ↔ b.isWellFormed ∧ ∀ t ∈ previous, t < b.time := by
  unfold fault? isWellFormed
  cases b.isFinite with
  | false => simp
  | true =>
    cases b.isInconsistent with
    | true => simp
    | false =>
      by_cases hvolume : b.volume < 0.0
      · simp [hvolume]
      · cases previous <;> simp [hvolume]

end Bar

/-- Bars that sanitation would keep: well formed, each later than those before it. -/
structure IsClean (bars : List (Bar α)) : Prop where
  wellFormed : ∀ b ∈ bars, b.isWellFormed
  ascending : bars.Pairwise fun a b => a.time < b.time

theorem IsClean.sublist {bars kept : List (Bar α)} (h : IsClean bars) (hsub : kept.Sublist bars) :
    IsClean kept :=
  ⟨fun b hb => h.wellFormed b (hsub.subset hb), h.ascending.sublist hsub⟩

theorem isClean_sanitizeFrom (index : Nat) (previous : Option Instant) (bars : List (Bar α)) :
    IsClean (sanitizeFrom index previous bars).clean ∧
      ∀ b ∈ (sanitizeFrom index previous bars).clean, ∀ t ∈ previous, t < b.time := by
  fun_induction sanitizeFrom index previous bars with
  | case1 => exact ⟨⟨by simp, .nil⟩, by simp⟩
  | case2 index previous b rest fault hfault later ih => exact ih
  | case3 index previous b rest hfault later ih =>
    obtain ⟨hclean, hlater⟩ := ih
    obtain ⟨hformed, hprevious⟩ := Bar.fault?_eq_none_iff.1 hfault
    refine ⟨⟨?_, ?_⟩, fun x hx t ht => ?_⟩
    · exact List.forall_mem_cons.2 ⟨hformed, hclean.wellFormed⟩
    · exact List.pairwise_cons.2 ⟨fun x hx => hlater x hx b.time rfl, hclean.ascending⟩
    · rcases List.mem_cons.1 hx with rfl | hx
      · exact hprevious t ht
      · exact lt_trans (hprevious t ht) (hlater x hx b.time rfl)

theorem isClean_sanitize (bars : List (Bar α)) : IsClean (sanitize bars).clean :=
  (isClean_sanitizeFrom 0 none bars).1

namespace IsClean

variable {bars : List (Bar α)}

theorem sanitizeFrom_eq (h : IsClean bars) (index : Nat) {previous : Option Instant}
    (hlater : ∀ b ∈ bars, ∀ t ∈ previous, t < b.time) :
    sanitizeFrom index previous bars = ⟨bars, []⟩ := by
  induction bars generalizing index previous with
  | nil => rfl
  | cons b rest ih =>
    obtain ⟨hformed, hrest⟩ := List.forall_mem_cons.1 h.wellFormed
    obtain ⟨hfirst, hascend⟩ := List.pairwise_cons.1 h.ascending
    have hfault : b.fault? index previous = none :=
      Bar.fault?_eq_none_iff.2 ⟨hformed, hlater b List.mem_cons_self⟩
    have htail : sanitizeFrom (index + 1) (some b.time) rest = ⟨rest, []⟩ :=
      ih ⟨hrest, hascend⟩ (index + 1) fun x hx t ht => by
        cases ht
        exact hfirst x hx
    rw [sanitizeFrom, hfault, htail]

theorem sanitize_eq (h : IsClean bars) : sanitize bars = ⟨bars, []⟩ :=
  h.sanitizeFrom_eq 0 (by simp)

theorem prepare_eq (h : IsClean bars) (lookback : Nat) :
    prepare bars lookback = ⟨bars.drop (bars.length - lookback), []⟩ := by
  rw [prepare, h.sanitize_eq]

end IsClean

theorem isClean_prepare (bars : List (Bar α)) (lookback : Nat) :
    IsClean (prepare bars lookback).clean :=
  (isClean_sanitize bars).sublist (List.drop_sublist ..)

@[simp] theorem sanitize_clean (bars : List (Bar α)) :
    sanitize (sanitize bars).clean = ⟨(sanitize bars).clean, []⟩ :=
  (isClean_sanitize bars).sanitize_eq

@[simp] theorem prepare_sanitize_clean (bars : List (Bar α)) (lookback : Nat) :
    prepare (sanitize bars).clean lookback = ⟨(prepare bars lookback).clean, []⟩ :=
  (isClean_sanitize bars).prepare_eq lookback

@[simp] theorem prepare_prepare_clean (bars : List (Bar α)) (lookback : Nat) :
    prepare (prepare bars lookback).clean lookback = ⟨(prepare bars lookback).clean, []⟩ := by
  have hlength : (prepare bars lookback).clean.length ≤ lookback := by
    simp only [prepare, List.length_drop]
    omega
  rw [(isClean_prepare bars lookback).prepare_eq, Nat.sub_eq_zero_of_le hlength, List.drop_zero]

end PriceAction
