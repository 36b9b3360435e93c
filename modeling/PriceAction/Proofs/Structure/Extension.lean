import PriceAction.Proofs.Floating.Order
import PriceAction.Proofs.Structure.Leg

/-!
# Legs of a longer series

Later bars may strengthen a swing and add swings, nothing else (`bare_detect_prefix`). So the legs
stay as they are, but the last may run on to a more extreme end, and legs may follow
(`Leg.extends_ofSwings`). Strengths have no part in legs and breaks.
-/

namespace PriceAction

variable {α : Type}

/-! ## Strengths have no part -/

/-- The swing without its strength. -/
def Swing.bare (s : Swing α) : Swing α := { s with strength := 0 }

/-- The leg without the strengths of its swings. -/
def Leg.bare (l : Leg α) : Leg α := { l with start := l.start.bare, stop := l.stop.bare }

theorem Leg.exists_of_getElem?_map_bare {legs : List (Leg α)} {k : Nat} {l : Leg α}
    (h : (legs.map Leg.bare)[k]? = some l) : ∃ leg, legs[k]? = some leg ∧ leg.bare = l := by
  rw [List.getElem?_map] at h
  exact Option.map_eq_some_iff.1 h

variable [Scalar α]

theorem addPivot_bare (pivots : List (Swing α)) (s : Swing α) :
    addPivot (pivots.map Swing.bare) s.bare = (addPivot pivots s).map Swing.bare := by
  cases pivots with
  | nil => rfl
  | cons last earlier =>
    rw [List.map_cons, addPivot, addPivot]
    by_cases hkind : last.kind = s.kind
    · by_cases hbeyond : s.kind.beyond s.price last.price
      · simp [Swing.bare, hkind, hbeyond]
      · simp [Swing.bare, hkind, hbeyond]
    · simp [Swing.bare, hkind]

theorem alternate_bare (swings : List (Swing α)) :
    alternate (swings.map Swing.bare) = (alternate swings).map Swing.bare := by
  have hfold (pivots : List (Swing α)) :
      (swings.map Swing.bare).foldl addPivot (pivots.map Swing.bare) =
        (swings.foldl addPivot pivots).map Swing.bare := by
    induction swings generalizing pivots with
    | nil => rfl
    | cons s rest ih => rw [List.map_cons, List.foldl_cons, addPivot_bare, ih, List.foldl_cons]
  rw [alternate, alternate, List.map_reverse]
  exact congrArg List.reverse (hfold [])

theorem legsAlong_bare (prior? : Option (Swing α)) (pivots : List (Swing α)) :
    legsAlong (prior?.map Swing.bare) (pivots.map Swing.bare) =
      (legsAlong prior? pivots).map Leg.bare := by
  induction pivots generalizing prior? with
  | nil => rfl
  | cons a rest ih =>
    cases rest with
    | nil => rfl
    | cons b rest =>
      have htail := ih (some a)
      rw [List.map_cons] at htail
      rw [List.map_cons, List.map_cons, legsAlong, legsAlong, List.map_cons, ← htail,
        Option.map_map]
      rfl

theorem Leg.ofSwings_bare (swings : List (Swing α)) :
    Leg.ofSwings (swings.map Swing.bare) = (Leg.ofSwings swings).map Leg.bare := by
  rw [ofSwings, alternate_bare]
  exact legsAlong_bare none (alternate swings)

/-! ## Swings -/

namespace Swing

variable {window cap k : Nat} {before bars after : List (Bar α)} {bar : Bar α}

theorem isPivot_append (kind : SwingKind) (before : List (Bar α)) (bar : Bar α)
    (h : k ≤ after.length) (later : List (Bar α)) :
    isPivot kind before bar (after ++ later) k = isPivot kind before bar after k := by
  rw [isPivot, isPivot, List.take_append_of_le_length h]

theorem bare_atBar_append (h : window ≤ after.length) (later : List (Bar α)) :
    (atBar window cap before bar (after ++ later)).map bare =
      (atBar window cap before bar after).map bare := by
  have hpivot (kind : SwingKind) := isPivot_append kind before bar h later
  simp only [atBar, List.map_map, hpivot]
  rfl

theorem atBar_eq_nil (h : after.length < window) : atBar window cap before bar after = [] := by
  have hpivot (kind : SwingKind) : isPivot kind before bar after window = false := by
    have hne : (after.take window).length ≠ window := by
      rw [List.length_take]
      omega
    rw [isPivot, decide_eq_false hne, Bool.and_false]
    rfl
  simp [atBar, hpivot]

theorem scan_eq_nil (h : bars.length ≤ window) : scan window cap before bars = [] := by
  induction bars generalizing before with
  | nil => rfl
  | cons bar after ih =>
    rw [List.length_cons] at h
    rw [scan, atBar_eq_nil (by omega), ih (by omega)]
    rfl

theorem bare_scan_prefix (later : List (Bar α)) :
    (scan window cap before bars).map bare <+:
      (scan window cap before (bars ++ later)).map bare := by
  induction bars generalizing before with
  | nil => exact List.nil_prefix
  | cons bar after ih =>
    by_cases h : window ≤ after.length
    · rw [List.cons_append, scan, scan, List.map_append, List.map_append, bare_atBar_append h]
      exact (List.prefix_append_right_inj _).2 ih
    · rw [scan_eq_nil (by rw [List.length_cons]; omega)]
      exact List.nil_prefix

theorem bare_detect_prefix (bars later : List (Bar α)) (window cap : Nat) :
    (detect bars window cap).map bare <+: (detect (bars ++ later) window cap).map bare := by
  rw [detect, detect]
  split
  · exact List.prefix_refl _
  · exact bare_scan_prefix later

theorem index_of_mem_atBar {s : Swing α} (h : s ∈ atBar window cap before bar after) :
    s.index = before.length := by
  obtain ⟨kind, -, rfl⟩ := List.mem_map.1 h
  rfl

theorem le_index_of_mem_scan {s : Swing α} (h : s ∈ scan window cap before bars) :
    before.length ≤ s.index := by
  induction bars generalizing before with
  | nil => cases h
  | cons bar after ih =>
    rcases List.mem_append.1 h with hbar | hlater
    · exact Nat.le_of_eq (index_of_mem_atBar hbar).symm
    · have := ih hlater
      rw [List.length_cons] at this
      omega

theorem pairwise_scan (window cap : Nat) (before bars : List (Bar α)) :
    (scan window cap before bars).Pairwise fun a b => a.index ≤ b.index := by
  induction bars generalizing before with
  | nil => exact List.Pairwise.nil
  | cons bar after ih =>
    refine List.pairwise_append.2 ⟨?_, ih _, fun a ha b hb => ?_⟩
    · exact List.pairwise_of_forall_mem_list fun a ha b hb =>
        Nat.le_of_eq ((index_of_mem_atBar ha).trans (index_of_mem_atBar hb).symm)
    · have := le_index_of_mem_scan hb
      rw [List.length_cons] at this
      rw [index_of_mem_atBar ha]
      omega

theorem pairwise_detect (bars : List (Bar α)) (window cap : Nat) :
    (detect bars window cap).Pairwise fun a b => a.index ≤ b.index := by
  rw [detect]
  split
  · exact List.Pairwise.nil
  · exact pairwise_scan ..

end Swing

/-! ## Pivots -/

theorem SwingKind.beyond_trans {kind : SwingKind} {x y z : Float} (hxy : kind.beyond x y)
    (hyz : kind.beyond y z) : kind.beyond x z := by
  cases kind with
  | high => exact decide_eq_true (Floating.lt_trans (of_decide_eq_true hyz) (of_decide_eq_true hxy))
  | low => exact decide_eq_true (Floating.lt_trans (of_decide_eq_true hxy) (of_decide_eq_true hyz))

/-- Whether a pivot has stayed or run on to a later, more extreme one of its kind. -/
def Swing.RunsOn (s s' : Swing Float) : Prop :=
  s' = s ∨ s'.kind = s.kind ∧ s.index ≤ s'.index ∧ s.kind.beyond s'.price s.price

namespace Swing.RunsOn

variable {s s' s'' : Swing Float}

theorem kind_eq (h : s.RunsOn s') : s'.kind = s.kind := by
  rcases h with rfl | ⟨hkind, -, -⟩
  · rfl
  · exact hkind

theorem index_le (h : s.RunsOn s') : s.index ≤ s'.index := by
  rcases h with rfl | ⟨-, hindex, -⟩
  · exact Nat.le_refl _
  · exact hindex

theorem beyond (h : s.RunsOn s') {level : Float} (hlevel : s.kind.beyond s.price level) :
    s'.kind.beyond s'.price level := by
  rcases h with rfl | ⟨hkind, -, hbeyond⟩
  · exact hlevel
  · rw [hkind]
    exact SwingKind.beyond_trans hbeyond hlevel

theorem trans (h : s.RunsOn s') (h' : s'.RunsOn s'') : s.RunsOn s'' := by
  rcases h with rfl | ⟨hkind, hindex, hbeyond⟩
  · exact h'
  · refine .inr ⟨h'.kind_eq.trans hkind, Nat.le_trans hindex h'.index_le, ?_⟩
    rw [← hkind, ← h'.kind_eq]
    exact h'.beyond (hkind ▸ hbeyond)

end Swing.RunsOn

theorem foldl_addPivot_cons {last : Swing Float} {swings : List (Swing Float)}
    (h : (last :: swings).Pairwise fun a b => a.index ≤ b.index) (earlier : List (Swing Float)) :
    ∃ last' more, last.RunsOn last' ∧
      swings.foldl addPivot (last :: earlier) = more ++ last' :: earlier := by
  induction swings generalizing last earlier with
  | nil => exact ⟨last, [], .inl rfl, rfl⟩
  | cons s rest ih =>
    obtain ⟨hlast, hrest⟩ := List.pairwise_cons.1 h
    rw [List.foldl_cons, addPivot]
    by_cases hkind : last.kind = s.kind
    · rw [if_pos hkind]
      by_cases hbeyond : s.kind.beyond s.price last.price
      · obtain ⟨last', more, hruns, hfold⟩ := ih hrest earlier
        have hfirst : last.RunsOn s :=
          .inr ⟨hkind.symm, hlast s List.mem_cons_self, hkind ▸ hbeyond⟩
        rw [if_pos hbeyond]
        exact ⟨last', more, hfirst.trans hruns, hfold⟩
      · rw [if_neg hbeyond]
        exact ih (h.sublist ((List.sublist_cons_self s rest).cons_cons last)) earlier
    · -- the pivot stays, and the swings after it run on from the new one
      obtain ⟨s', more, -, hfold⟩ := ih hrest (last :: earlier)
      rw [if_neg hkind, hfold]
      exact ⟨last, more ++ [s'], .inl rfl, by simp⟩

/-! ## Legs -/

namespace Leg

/-- Whether a leg has stayed or its end has run on. -/
structure RunsOn (leg leg' : Leg Float) : Prop where
  start_eq : leg'.start = leg.start
  stop : leg.stop.RunsOn leg'.stop

theorem RunsOn.refl (leg : Leg Float) : leg.RunsOn leg := ⟨rfl, .inl rfl⟩

theorem RunsOn.direction_eq {leg leg' : Leg Float} (h : leg.RunsOn leg') :
    leg'.direction = leg.direction :=
  congrArg SwingKind.side h.stop.kind_eq

/-- Legs of a longer series: the same ones, but the last may run on and others may follow. -/
inductive Extends : List (Leg Float) → List (Leg Float) → Prop
  | nil (legs : List (Leg Float)) : Extends [] legs
  | last {leg leg' : Leg Float} (h : leg.RunsOn leg') (legs : List (Leg Float)) :
      Extends [leg] (leg' :: legs)
  | cons (leg : Leg Float) {legs legs' : List (Leg Float)} (h : Extends legs legs') :
      Extends (leg :: legs) (leg :: legs')

theorem Extends.getElem? {legs legs' : List (Leg Float)} (h : Extends legs legs') {k : Nat}
    {leg : Leg Float} (hleg : legs[k]? = some leg) :
    ∃ leg', legs'[k]? = some leg' ∧ leg.RunsOn leg' := by
  induction h generalizing k with
  | nil => cases hleg
  | last h legs =>
    cases k with
    | zero =>
      cases hleg
      exact ⟨_, rfl, h⟩
    | succ k => cases hleg
  | cons first h ih =>
    cases k with
    | zero =>
      cases hleg
      exact ⟨leg, rfl, .refl leg⟩
    | succ k => exact ih hleg

theorem extends_legsAlong {last last' : Swing Float} (h : last.RunsOn last')
    (more earlier : List (Swing Float)) (prior? : Option (Swing Float)) :
    Extends (legsAlong prior? (earlier ++ [last]))
      (legsAlong prior? (earlier ++ last' :: more)) := by
  induction earlier generalizing prior? with
  | nil => exact .nil _
  | cons a rest ih =>
    cases rest with
    | nil =>
      refine .last ⟨?_, ?_⟩ _
      · rfl
      · exact h
    | cons b rest => exact .cons _ (ih (some a))

theorem extends_ofSwings {swings later : List (Swing Float)}
    (h : (swings ++ later).Pairwise fun a b => a.index ≤ b.index) :
    Extends (ofSwings swings) (ofSwings (swings ++ later)) := by
  rw [ofSwings, ofSwings]
  have hsub := alternate_sublist swings
  rw [alternate] at hsub ⊢
  rw [alternate, List.foldl_append]
  cases hpivots : swings.foldl addPivot [] with
  | nil => exact .nil _
  | cons last earlier =>
    obtain ⟨-, hlater, hcross⟩ := List.pairwise_append.1 h
    have hmem : last ∈ swings := hsub.subset (by simp [hpivots])
    have hsorted : (last :: later).Pairwise fun a b => a.index ≤ b.index :=
      List.pairwise_cons.2 ⟨hcross last hmem, hlater⟩
    obtain ⟨last', more, hruns, hfold⟩ := foldl_addPivot_cons hsorted earlier
    rw [hfold, List.reverse_cons, List.reverse_append, List.reverse_cons, List.append_assoc]
    exact extends_legsAlong hruns _ _ none

theorem extends_detect (bars later : List (Bar Float)) (window cap : Nat) :
    Extends ((ofSwings (Swing.detect bars window cap)).map bare)
      ((ofSwings (Swing.detect (bars ++ later) window cap)).map bare) := by
  obtain ⟨more, hmore⟩ := Swing.bare_detect_prefix bars later window cap
  rw [← ofSwings_bare, ← ofSwings_bare, ← hmore]
  apply extends_ofSwings
  rw [hmore]
  exact (Swing.pairwise_detect ..).map Swing.bare fun _ _ h => h

end Leg

end PriceAction
