import Mathlib.Data.List.SplitBy
import PriceAction.Proofs.Extreme
import PriceAction.Proofs.Latest
import PriceAction.Proofs.Structure.Leg

/-!
# Pivots and the legs between them

Swings of one kind in a row leave one pivot, the first of the most extreme (`forall₂_alternate`).
So the pivots are of both kinds in turn (`isChain_alternate`), and reducing them again changes
nothing (`alternate_alternate`). Each leg joins two neighbours, and its label compares its end with
the latest earlier pivot of that kind (`Leg.joins_of_getElem?`).
-/

namespace PriceAction

/-! ## Runs of one kind -/

namespace Swing

variable {α : Type}

/-- The longest runs of swings of one kind. -/
def runs (swings : List (Swing α)) : List (List (Swing α)) :=
  swings.splitBy fun a b => decide (a.kind = b.kind)

theorem flatten_runs (swings : List (Swing α)) : (runs swings).flatten = swings :=
  List.flatten_splitBy ..

theorem kind_eq_of_isChain {s : Swing α} {rest : List (Swing α)}
    (h : (s :: rest).IsChain fun a b => a.kind = b.kind) : ∀ b ∈ rest, b.kind = s.kind := by
  induction rest generalizing s with
  | nil => nofun
  | cons next rest ih =>
    obtain ⟨hnext, hrest⟩ := List.isChain_cons_cons.1 h
    intro b hb
    rcases List.mem_cons.1 hb with rfl | hlater
    · exact hnext.symm
    · exact (ih hrest b hlater).trans hnext.symm

theorem exists_cons_of_mem_runs {swings run : List (Swing α)} (h : run ∈ runs swings) :
    ∃ s rest, run = s :: rest ∧ ∀ b ∈ rest, b.kind = s.kind := by
  obtain ⟨s, rest, rfl⟩ := List.exists_cons_of_ne_nil (List.ne_nil_of_mem_splitBy h)
  have hchain := (List.isChain_of_mem_splitBy h).imp fun _ _ => of_decide_eq_true
  exact ⟨s, rest, rfl, kind_eq_of_isChain hchain⟩

theorem isChain_runs (swings : List (Swing α)) :
    (runs swings).IsChain fun r r' => ∃ a ∈ r, ∃ b ∈ r'.head?, a.kind ≠ b.kind := by
  have hturn := List.isChain_getLast_head_splitBy (fun a b => decide (a.kind = b.kind)) swings
  refine hturn.imp fun r r' => ?_
  rintro ⟨hne, hne', hdiffer⟩
  exact ⟨_, List.getLast_mem hne, _, List.head_mem_head? hne', of_decide_eq_false hdiffer⟩

variable [Scalar α]

theorem addPivot_of_kind_ne {pivots : List (Swing α)} {s : Swing α}
    (h : ∀ last ∈ pivots.head?, last.kind ≠ s.kind) : addPivot pivots s = s :: pivots := by
  cases pivots with
  | nil => rfl
  | cons last earlier => rw [addPivot, if_neg (h last rfl)]

/-- Whether a swing is the first of the most extreme swings of a run, whose kind it has. -/
structure IsFirstExtreme (run : List (Swing α)) (s : Swing α) : Prop where
  kind_eq : ∀ b ∈ run, b.kind = s.kind
  firstExtreme : s.kind.side.FirstExtreme Swing.price run s

variable [LawfulScalar α]

namespace IsFirstExtreme

variable {run more : List (Swing α)} {peak : Swing α}

theorem singleton (s : Swing α) : IsFirstExtreme [s] s where
  kind_eq := by simp
  firstExtreme := .singleton _ _ s

/-- One swing more takes the place of the peak of a run if it lies beyond it. -/
theorem exists_addPivot (h : IsFirstExtreme run peak) {s : Swing α} (hkind : s.kind = peak.kind)
    (hfinite : ∀ b ∈ run, Scalar.isFinite b.price = true) (earlier : List (Swing α)) :
    ∃ p, addPivot (peak :: earlier) s = p :: earlier ∧ IsFirstExtreme (run ++ [s]) p := by
  have hconcat := h.firstExtreme.concat hfinite s
  have hall : ∀ b ∈ run ++ [s], b.kind = peak.kind := by
    intro b hb
    rcases List.mem_append.1 hb with hb | hb
    · exact h.kind_eq b hb
    · rw [List.mem_singleton.1 hb, hkind]
  rw [addPivot, if_pos hkind.symm, SwingKind.beyond, hkind]
  split at hconcat
  · next hs =>
    rw [if_pos hs]
    exact ⟨s, rfl, fun b hb => (hall b hb).trans hkind.symm, hkind ▸ hconcat⟩
  · next hs =>
    rw [if_neg hs]
    exact ⟨peak, rfl, hall, hconcat⟩

theorem exists_foldl_addPivot (h : IsFirstExtreme run peak) (hkind : ∀ s ∈ more, s.kind = peak.kind)
    (hfinite : ∀ b ∈ run ++ more, Scalar.isFinite b.price = true) (earlier : List (Swing α)) :
    ∃ p, more.foldl addPivot (peak :: earlier) = p :: earlier ∧
      IsFirstExtreme (run ++ more) p := by
  induction more generalizing run peak with
  | nil => exact ⟨peak, rfl, by rwa [List.append_nil]⟩
  | cons s rest ih =>
    obtain ⟨hs, hrest⟩ := List.forall_mem_cons.1 hkind
    obtain ⟨p, hp, hextreme⟩ := h.exists_addPivot hs
      (fun b hb => hfinite b (List.mem_append_left _ hb)) earlier
    have hpeak : p.kind = peak.kind :=
      (hextreme.kind_eq s List.mem_append_cons_self).symm.trans hs
    rw [List.foldl_cons, hp, List.append_cons]
    rw [List.append_cons] at hfinite
    exact ih hextreme (fun b hb => (hrest b hb).trans hpeak.symm) hfinite

end IsFirstExtreme

/-- Swings given run by run leave one pivot for each run. -/
theorem exists_foldl_flatten {rs : List (List (Swing α))} (earlier : List (Swing α))
    (hruns : ∀ r ∈ rs, ∃ s rest, r = s :: rest ∧ ∀ b ∈ rest, b.kind = s.kind)
    (hturns : rs.IsChain fun r r' => ∃ a ∈ r, ∃ b ∈ r'.head?, a.kind ≠ b.kind)
    (hfinite : ∀ r ∈ rs, ∀ s ∈ r, Scalar.isFinite s.price = true)
    (hfirst : ∀ last ∈ earlier.head?, ∀ r ∈ rs.head?, ∃ b ∈ r.head?, last.kind ≠ b.kind) :
    ∃ peaks, rs.flatten.foldl addPivot earlier = peaks.reverse ++ earlier ∧
      List.Forall₂ IsFirstExtreme rs peaks := by
  induction rs generalizing earlier with
  | nil => exact ⟨[], rfl, .nil⟩
  | cons r rest ih =>
    obtain ⟨⟨s, more, rfl, hkind⟩, hrestRuns⟩ := List.forall_mem_cons.1 hruns
    obtain ⟨hr, hrestFinite⟩ := List.forall_mem_cons.1 hfinite
    obtain ⟨hturn, hrestTurns⟩ := List.isChain_cons.1 hturns
    have hnew : addPivot earlier s = s :: earlier := by
      refine addPivot_of_kind_ne fun last hlast => ?_
      obtain ⟨b, hb, hne⟩ := hfirst last hlast (s :: more) rfl
      cases hb
      exact hne
    obtain ⟨peak, hpeak, hextreme⟩ :=
      (IsFirstExtreme.singleton s).exists_foldl_addPivot hkind hr earlier
    -- the peak has the kind of its run, so the next run begins a new pivot
    have hnext : ∀ last ∈ (peak :: earlier).head?, ∀ r' ∈ rest.head?,
        ∃ b ∈ r'.head?, last.kind ≠ b.kind := by
      intro last hlast r' hr'
      cases hlast
      obtain ⟨a, ha, b, hb, hne⟩ := hturn r' hr'
      exact ⟨b, hb, by rwa [hextreme.kind_eq a ha] at hne⟩
    obtain ⟨peaks, hpeaks, hall⟩ := ih (peak :: earlier) hrestRuns hrestTurns hrestFinite hnext
    refine ⟨peak :: peaks, ?_, .cons hextreme hall⟩
    rw [List.flatten_cons, List.cons_append, List.foldl_cons, hnew, List.foldl_append, hpeak,
      hpeaks, List.reverse_cons, List.append_assoc, List.singleton_append]

/-- **Pivots are first extremes.** Each longest run of one kind leaves one pivot, the first of its
most extreme swings. -/
theorem forall₂_alternate {swings : List (Swing α)}
    (hfinite : ∀ s ∈ swings, Scalar.isFinite s.price = true) :
    List.Forall₂ IsFirstExtreme (runs swings) (alternate swings) := by
  have hrun : ∀ r ∈ runs swings, ∀ s ∈ r, Scalar.isFinite s.price = true :=
    fun r hr s hs => hfinite s (flatten_runs swings ▸ List.mem_flatten_of_mem hr hs)
  obtain ⟨peaks, hpeaks, hall⟩ := exists_foldl_flatten []
    (fun _ => exists_cons_of_mem_runs) (isChain_runs swings) hrun (by simp)
  rw [flatten_runs, List.append_nil] at hpeaks
  rw [alternate, hpeaks, List.reverse_reverse]
  exact hall

omit [LawfulScalar α] in
/-- Between a pivot and the next one, no swing is more extreme than the first of them. -/
theorem exists_split_of_pivots {rs : List (List (Swing α))} {pivots : List (Swing α)} {k : Nat}
    {a b : Swing α} (h : List.Forall₂ IsFirstExtreme rs pivots) (ha : pivots[k]? = some a)
    (hb : pivots[k + 1]? = some b) (hkind : a.kind ≠ b.kind) :
    ∃ before between after, rs.flatten = before ++ a :: (between ++ b :: after) ∧
      ∀ s ∈ between, s.kind = a.kind → a.kind.beyond s.price a.price = false := by
  induction h generalizing k with
  | nil => cases ha
  | @cons r p rest pivots hp hrest ih =>
    cases k with
    | succ k =>
      obtain ⟨before, between, after, hsplit, hall⟩ := ih ha hb
      exact ⟨r ++ before, between, after, by rw [List.flatten_cons, hsplit, List.append_assoc], hall⟩
    | zero =>
      cases ha
      cases hrest with
      | nil => cases hb
      | @cons r' p' rest pivots hp' hrest =>
        cases hb
        obtain ⟨before, after, rfl, -⟩ := hp.firstExtreme.exists_split
        obtain ⟨before', after', rfl, -⟩ := hp'.firstExtreme.exists_split
        refine ⟨before, after ++ before', after' ++ rest.flatten, by simp, fun s hs heq => ?_⟩
        rcases List.mem_append.1 hs with hs | hs
        · exact hp.firstExtreme.extreme s (by simp [hs])
        · exact absurd (heq.symm.trans (hp'.kind_eq s (by simp [hs]))) hkind

end Swing

/-! ## Pivots of both kinds in turn -/

section Alternation

variable {α : Type} [Scalar α]

theorem isChain_addPivot {pivots : List (Swing α)} (h : pivots.IsChain fun a b => a.kind ≠ b.kind)
    (s : Swing α) : (addPivot pivots s).IsChain fun a b => a.kind ≠ b.kind := by
  cases pivots with
  | nil => exact .singleton s
  | cons last earlier =>
    rw [addPivot]
    split
    · next hkind =>
      split
      · rw [List.isChain_cons] at h ⊢
        exact ⟨fun b hb => hkind ▸ h.1 b hb, h.2⟩
      · exact h
    · next hkind => exact .cons_cons (Ne.symm hkind) h

theorem isChain_alternate (swings : List (Swing α)) :
    (alternate swings).IsChain fun a b => a.kind ≠ b.kind := by
  have hfold : ∀ pivots : List (Swing α), pivots.IsChain (fun a b => a.kind ≠ b.kind) →
      (swings.foldl addPivot pivots).IsChain fun a b => a.kind ≠ b.kind := by
    induction swings with
    | nil => exact fun _ h => h
    | cons s rest ih => exact fun pivots h => ih _ (isChain_addPivot h s)
  rw [alternate, List.isChain_reverse]
  exact (hfold [] .nil).imp fun _ _ h => Ne.symm h

theorem alternate_of_isChain {swings : List (Swing α)}
    (h : swings.IsChain fun a b => a.kind ≠ b.kind) : alternate swings = swings := by
  induction swings using List.reverseRecOn with
  | nil => rfl
  | append_singleton earlier s ih =>
    obtain ⟨hearlier, -, hlast⟩ := List.isChain_append.1 h
    have hfold : earlier.foldl addPivot [] = earlier.reverse := by
      rw [← List.reverse_eq_iff]
      exact ih hearlier
    have hnew : addPivot earlier.reverse s = s :: earlier.reverse := by
      refine Swing.addPivot_of_kind_ne fun last hfirst => ?_
      rw [List.head?_reverse] at hfirst
      exact hlast last hfirst s rfl
    rw [alternate, List.foldl_append, hfold, List.foldl_cons, List.foldl_nil, hnew,
      List.reverse_cons, List.reverse_reverse]

theorem alternate_alternate (swings : List (Swing α)) :
    alternate (alternate swings) = alternate swings :=
  alternate_of_isChain (isChain_alternate swings)

namespace Leg

theorem of_mem_legsAlong {r : Swing α → Swing α → Prop} {prior? : Option (Swing α)}
    {pivots : List (Swing α)} (h : pivots.IsChain r) {leg : Leg α}
    (hleg : leg ∈ legsAlong prior? pivots) : r leg.start leg.stop := by
  fun_induction legsAlong prior? pivots with
  | case1 prior? a b rest ih =>
    rw [List.isChain_cons_cons] at h
    rcases List.mem_cons.1 hleg with rfl | htail
    · exact h.1
    · exact ih h.2 htail
  | case2 => cases hleg

theorem kind_ne_of_mem_ofSwings {swings : List (Swing α)} {leg : Leg α}
    (h : leg ∈ ofSwings swings) : leg.start.kind ≠ leg.stop.kind :=
  of_mem_legsAlong (isChain_alternate swings) h

theorem index_le_of_mem_ofSwings {swings : List (Swing α)}
    (hswings : swings.Pairwise fun a b => a.index ≤ b.index) {leg : Leg α}
    (h : leg ∈ ofSwings swings) : leg.start.index ≤ leg.stop.index :=
  of_mem_legsAlong (r := fun a b => a.index ≤ b.index)
    (hswings.sublist (alternate_sublist swings)).isChain h

end Leg

end Alternation

/-! ## Legs between neighbours -/

theorem SwingKind.eq_of_ne_of_ne {a b c : SwingKind} (hab : a ≠ b) (hbc : b ≠ c) : a = c := by
  cases a <;> cases b <;> cases c <;> simp_all

variable {α : Type}

/-- The latest swing of a kind in a list. -/
def Swing.latest? (kind : SwingKind) (swings : List (Swing α)) : Option (Swing α) :=
  swings.reverse.find? (·.kind = kind)

/-- The pivot before number `k`; before the first it is `prior?`. -/
def pivotBefore? (prior? : Option (Swing α)) (pivots : List (Swing α)) (k : Nat) :
    Option (Swing α) :=
  match k with
  | 0 => prior?
  | previous + 1 => pivots[previous]?

namespace Leg

variable {prior? : Option (Swing α)} {pivots : List (Swing α)} {k : Nat} {leg : Leg α}

theorem kind_ne_of_getElem? (h : pivots.IsChain fun a b => a.kind ≠ b.kind) {a b : Swing α}
    (ha : pivots[k]? = some a) (hb : pivots[k + 1]? = some b) : a.kind ≠ b.kind := by
  obtain ⟨hlt, rfl⟩ := List.getElem?_eq_some_iff.1 hb
  obtain ⟨-, rfl⟩ := List.getElem?_eq_some_iff.1 ha
  exact List.isChain_iff_getElem.1 h k hlt

/-- Among pivots of both kinds in turn, the latest of a kind before pivot number `k + 1` of that
kind is two places before it. -/
theorem latest?_take (h : pivots.IsChain fun a b => a.kind ≠ b.kind) {a b : Swing α}
    (ha : pivots[k]? = some a) (hb : pivots[k + 1]? = some b) :
    Swing.latest? b.kind (pivots.take (k + 1)) = pivotBefore? none pivots k := by
  have hne := kind_ne_of_getElem? h ha hb
  cases k with
  | zero =>
    obtain ⟨rest, rfl⟩ : ∃ rest, pivots = a :: rest := by
      cases pivots with
      | nil => cases ha
      | cons a' rest =>
        cases ha
        exact ⟨rest, rfl⟩
    simp [Swing.latest?, pivotBefore?, hne]
  | succ j =>
    obtain ⟨hlt, -⟩ := List.getElem?_eq_some_iff.1 ha
    have hprior : pivots[j]? = some pivots[j] := List.getElem?_eq_getElem (by omega)
    rw [pivotBefore?, hprior, Swing.latest?, find?_reverse_eq_some_iff]
    refine ⟨j, ?_, ?_, fun i c hi hc => ?_⟩
    · rw [List.getElem?_take_of_lt (by omega), hprior]
    · exact decide_eq_true (SwingKind.eq_of_ne_of_ne (kind_ne_of_getElem? h hprior ha) hne)
    · rw [List.getElem?_take, Option.ite_none_right_eq_some] at hc
      obtain rfl : i = j + 1 := by omega
      rw [ha, Option.some.injEq] at hc
      simpa [← hc.2] using hne

variable [Scalar α]

/-- No swing of a pivot's kind on a bar between it and the next pivot is more extreme. -/
theorem not_beyond_of_between [LawfulScalar α] {swings : List (Swing α)} {a b s : Swing α}
    (hfinite : ∀ s ∈ swings, Scalar.isFinite s.price = true)
    (hsorted : swings.Pairwise fun a b => a.index ≤ b.index)
    (ha : (alternate swings)[k]? = some a) (hb : (alternate swings)[k + 1]? = some b)
    (hs : s ∈ swings) (hkind : s.kind = a.kind) (hafter : a.index < s.index)
    (hbefore : s.index < b.index) : a.kind.beyond s.price a.price = false := by
  obtain ⟨before, between, after, hsplit, hall⟩ := Swing.exists_split_of_pivots
    (Swing.forall₂_alternate hfinite) ha hb (kind_ne_of_getElem? (isChain_alternate swings) ha hb)
  rw [Swing.flatten_runs] at hsplit
  rw [hsplit] at hs hsorted
  have hsa := (List.pairwise_append.1 hsorted).2.2
  have htail := (List.pairwise_cons.1 (List.pairwise_append.1 hsorted).2.1).2
  have hsb := (List.pairwise_cons.1 (List.pairwise_append.1 htail).2.1).1
  rcases List.mem_append.1 hs with hs | hs
  · have := hsa s hs a List.mem_cons_self
    omega
  · rcases List.mem_cons.1 hs with rfl | hs
    · omega
    · rcases List.mem_append.1 hs with hs | hs
      · exact hall s hs hkind
      · rcases List.mem_cons.1 hs with rfl | hs
        · omega
        · have := hsb s hs
          omega

theorem length_legsAlong (prior? : Option (Swing α)) (pivots : List (Swing α)) :
    (legsAlong prior? pivots).length = pivots.length - 1 := by
  fun_induction legsAlong prior? pivots with
  | case1 prior? a b rest ih => simp [ih]
  | case2 pivots prior? hshort =>
    have hlt : pivots.length < 2 := by
      rcases pivots with _ | ⟨a, _ | ⟨b, rest⟩⟩
      · exact Nat.zero_lt_two
      · exact Nat.one_lt_two
      · exact absurd rfl (hshort a b rest)
    rw [List.length_nil]
    omega

theorem of_getElem?_legsAlong (h : (legsAlong prior? pivots)[k]? = some leg) :
    pivots[k]? = some leg.start ∧ pivots[k + 1]? = some leg.stop ∧
      leg.label = (pivotBefore? prior? pivots k).map fun p =>
        .of leg.stop.kind leg.stop.price p.price := by
  fun_induction legsAlong prior? pivots generalizing k with
  | case1 prior? a b rest ih =>
    cases k with
    | zero =>
      cases h
      exact ⟨rfl, rfl, rfl⟩
    | succ k =>
      obtain ⟨hstart, hstop, hlabel⟩ := ih h
      refine ⟨hstart, hstop, ?_⟩
      cases k <;> exact hlabel
  | case2 => cases h

/-- Whether a leg goes from pivot number `k` to the next, and its label compares its end with the
latest earlier pivot of that kind, the one before its start. -/
structure Joins (pivots : List (Swing α)) (k : Nat) (leg : Leg α) : Prop where
  start_eq : pivots[k]? = some leg.start
  stop_eq : pivots[k + 1]? = some leg.stop
  label_eq_none_iff : leg.label = none ↔ k = 0
  label_eq : leg.label = (pivotBefore? none pivots k).map fun p =>
    .of leg.stop.kind leg.stop.price p.price
  latest_eq : Swing.latest? leg.stop.kind (pivots.take (k + 1)) = pivotBefore? none pivots k

theorem joins_of_getElem? {swings : List (Swing α)} (h : (ofSwings swings)[k]? = some leg) :
    leg.Joins (alternate swings) k := by
  obtain ⟨hstart, hstop, hlabel⟩ := of_getElem?_legsAlong h
  refine ⟨hstart, hstop, ?_, hlabel, latest?_take (isChain_alternate swings) hstart hstop⟩
  rw [hlabel, Option.map_eq_none_iff]
  cases k with
  | zero => simp [pivotBefore?]
  | succ j =>
    obtain ⟨hlt, -⟩ := List.getElem?_eq_some_iff.1 hstart
    rw [pivotBefore?, List.getElem?_eq_none_iff]
    omega

end Leg

end PriceAction
