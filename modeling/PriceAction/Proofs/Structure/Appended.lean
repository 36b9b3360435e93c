import Mathlib.Data.List.Infix
import PriceAction.Proofs.Structure.Dated
import PriceAction.Proofs.Structure.Extension

/-!
# Breaks of a longer series

With one volatility for both, a longer series has the breaks of the shorter one at all legs but the
last. At the last leg it may have another, or the same one with another displacement, and all
further breaks come after it (`along_extends`).
-/

namespace PriceAction.Break

variable {settings : StructureSettings Float} {volatility volatility' : Float}
  {bars : List (Bar Float)} {leg leg' : Leg Float} {legs legs' : List (Leg Float)}
  {last : Option Direction} {labels : List SwingLabel} {prior? : Option (Swing Float)}
  {index : Nat} {e : Break Float}

/-! ## One leg of a longer series -/

theorem firstClose?_extends (hruns : leg.RunsOn leg') (later : List (Bar Float)) {level : Float}
    {hit : Nat × Bar Float} (h : firstClose? bars leg level = some hit) :
    firstClose? (bars ++ later) leg' level = some hit := by
  have hprefix : (bars.drop (leg.start.index + 1)).take (leg.stop.index - leg.start.index) <+:
      ((bars ++ later).drop (leg.start.index + 1)).take (leg'.stop.index - leg.start.index) := by
    have hstops := hruns.stop.index_le
    have hdrop := List.IsPrefix.drop (List.prefix_append bars later) (leg.start.index + 1)
    have htake := hdrop.take (leg.stop.index - leg.start.index)
    exact htake.trans (List.take_prefix_take_left (by omega))
  obtain ⟨more, hmore⟩ := hprefix
  rw [firstClose?] at h ⊢
  simp only [hruns.start_eq, hruns.direction_eq, ← hmore, List.zipIdx_append,
    List.findSome?_append, h, Option.some_or]

/-- A leg that runs on breaks where it did, if it is still large enough. -/
theorem ofLeg?_extends (hruns : leg.RunsOn leg')
    (hlarge : ¬leg'.amplitude ≤ threshold settings volatility' leg') (later : List (Bar Float))
    (h : ofLeg? settings volatility bars last labels prior? index leg = some e) :
    ofLeg? settings volatility' (bars ++ later) last labels prior? index leg' =
      some { e with displacement := leg'.amplitude } := by
  obtain ⟨prior, hprior, hmap⟩ := Option.bind_eq_some_iff.1 h
  obtain ⟨hit, hclose, rfl⟩ := Option.map_eq_some_iff.1 hmap
  obtain ⟨hbeyond, -, hfirst⟩ := of_close? hclose
  have hclose' : close? settings volatility' (bars ++ later) leg' prior = some hit := by
    rw [close?, if_pos (hruns.stop.beyond hbeyond), if_neg hlarge]
    exact firstClose?_extends hruns later hfirst
  rw [ofLeg?, hprior, Option.bind_some, hclose', Option.map_some, hruns.direction_eq]

theorem ofLeg?_append (hstart : leg.start.index < bars.length)
    (hstop : leg.stop.index < bars.length) (later : List (Bar Float)) :
    ofLeg? settings volatility (bars ++ later) last labels prior? index leg =
      ofLeg? settings volatility bars last labels prior? index leg := by
  have hbars : ((bars ++ later).drop (leg.start.index + 1)).take
      (leg.stop.index - leg.start.index) =
      (bars.drop (leg.start.index + 1)).take (leg.stop.index - leg.start.index) := by
    rw [List.drop_append_of_le_length (by omega),
      List.take_append_of_le_length (by rw [List.length_drop]; omega)]
  simp only [ofLeg?, close?, firstClose?, hbars]

theorem ofLeg?_of_runsOn (hruns : leg.RunsOn leg') (later : List (Bar Float)) {e' : Break Float}
    (h : ofLeg? settings volatility bars last labels prior? index leg = some e)
    (h' : ofLeg? settings volatility (bars ++ later) last labels prior? index leg' = some e') :
    e' = { e with displacement := e'.displacement } := by
  rw [ofLeg?_extends hruns (of_ofLeg? h').2.2.1 later h, Option.some.injEq] at h'
  rw [← h']

/-! ## All legs of a longer series -/

/-- What a longer series makes of the breaks of legs with the numbers up to `stop`, the last: those
of the earlier legs are kept, that of the last may differ in its displacement, and all others come
after it. -/
structure Appends (stop : Nat) (shorter longer : List (Break Float)) : Prop where
  exists_split : ∃ (kept more : List (Break Float)) (final final' : Option (Break Float)),
    shorter = kept ++ final.toList ∧ longer = kept ++ (final'.toList ++ more) ∧
      (∀ e ∈ kept, e.legIndex + 1 < stop) ∧ (∀ e ∈ final, e.legIndex + 1 = stop) ∧
      (∀ e ∈ final', e.legIndex + 1 = stop) ∧ (∀ e ∈ more, stop ≤ e.legIndex) ∧
      ∀ e ∈ final, ∀ e' ∈ final', e' = { e with displacement := e'.displacement }

theorem Appends.cons {stop : Nat} {shorter longer : List (Break Float)}
    (h : Appends stop shorter longer) {found : Option (Break Float)}
    (hfound : ∀ e ∈ found, e.legIndex + 1 < stop) :
    Appends stop (found.toList ++ shorter) (found.toList ++ longer) := by
  obtain ⟨kept, more, final, final', rfl, rfl, hkept, hrest⟩ := h.exists_split
  refine ⟨found.toList ++ kept, more, final, final', by simp, by simp, fun e he => ?_, hrest⟩
  rcases List.mem_append.1 he with hfirst | hlater
  · exact hfound e (Option.mem_toList.1 hfirst)
  · exact hkept e hlater

theorem appends_singleton (hruns : leg.RunsOn leg') (legs' : List (Leg Float))
    (later : List (Bar Float)) :
    Appends (index + 1) (along settings volatility bars last labels prior? index [leg])
      (along settings volatility (bars ++ later) last labels prior? index (leg' :: legs')) := by
  rw [along_cons, along_cons]
  refine ⟨[], _, _, _, List.append_nil _, rfl, by simp, fun e he => ?_, fun e he => ?_,
    fun e he => le_legIndex_of_mem he, fun e he e' he' => ofLeg?_of_runsOn hruns later he he'⟩
  · rw [(of_ofLeg? he).2.1]
  · rw [(of_ofLeg? he).2.1]

theorem along_extends (h : Leg.Extends legs legs')
    (hinside : ∀ l ∈ legs, l.start.index < bars.length ∧ l.stop.index < bars.length)
    (later : List (Bar Float)) :
    Appends (index + legs.length)
      (along settings volatility bars last labels prior? index legs)
      (along settings volatility (bars ++ later) last labels prior? index legs') := by
  induction h generalizing last labels prior? index with
  | nil legs =>
    exact ⟨[], _, none, none, rfl, rfl, by simp, by simp, by simp,
      fun e he => le_legIndex_of_mem he, by simp⟩
  | last hruns legs => exact appends_singleton hruns legs later
  | @cons leg legs legs' h ih =>
    obtain ⟨⟨hstart, hstop⟩, hrest⟩ := List.forall_mem_cons.1 hinside
    cases legs with
    | nil => exact appends_singleton (.refl leg) legs' later
    | cons next legs =>
      rw [along_cons, along_cons, ofLeg?_append hstart hstop]
      have hnumber : index + 1 + (next :: legs).length = index + (leg :: next :: legs).length := by
        simp only [List.length_cons]
        omega
      refine Appends.cons (hnumber ▸ ih hrest) fun e he => ?_
      rw [(of_ofLeg? he).2.1]
      simp only [List.length_cons]
      omega

/-! ## Leg by leg -/

/-- The breaks of one leg. -/
def ofLegNumber (events : List (Break Float)) (i : Nat) : List (Break Float) :=
  events.filter (·.legIndex = i)

theorem ofLegNumber_append (events later : List (Break Float)) (i : Nat) :
    ofLegNumber (events ++ later) i = ofLegNumber events i ++ ofLegNumber later i :=
  List.filter_append ..

theorem ofLegNumber_eq_nil {events : List (Break Float)} {i : Nat}
    (h : ∀ e ∈ events, e.legIndex ≠ i) : ofLegNumber events i = [] := by
  rw [ofLegNumber, List.filter_eq_nil_iff]
  simpa using h

theorem exists_ofLegNumber_eq {events : List (Break Float)}
    (h : events.Pairwise fun e f => e.legIndex < f.legIndex ∧ e.barIndex < f.barIndex) (i : Nat) :
    ∃ found : Option (Break Float), ofLegNumber events i = found.toList := by
  have hsub : (ofLegNumber events i).Pairwise fun e f => e.legIndex < f.legIndex :=
    (h.imp And.left).sublist List.filter_sublist
  have hall : ∀ e ∈ ofLegNumber events i, e.legIndex = i :=
    fun e he => of_decide_eq_true (List.mem_filter.1 he).2
  generalize ofLegNumber events i = found at hsub hall
  match found with
  | [] => exact ⟨none, rfl⟩
  | [e] => exact ⟨some e, rfl⟩
  | e :: f :: rest =>
    have hlt := List.rel_of_pairwise_cons hsub (List.mem_cons_self (a := f))
    rw [hall e (by simp), hall f (by simp)] at hlt
    exact absurd hlt (Nat.lt_irrefl i)

namespace Appends

variable {stop i : Nat} {shorter longer : List (Break Float)}

theorem ofLegNumber_eq (h : Appends stop shorter longer) (hi : i + 1 < stop) :
    ofLegNumber longer i = ofLegNumber shorter i := by
  obtain ⟨kept, more, final, final', rfl, rfl, -, hfinal, hfinal', hmore, -⟩ := h.exists_split
  have hlast : ofLegNumber final.toList i = [] := ofLegNumber_eq_nil fun e he => by
    have := hfinal e (Option.mem_toList.1 he)
    omega
  have hlast' : ofLegNumber (final'.toList ++ more) i = [] := ofLegNumber_eq_nil fun e he => by
    rcases List.mem_append.1 he with he | he
    · have := hfinal' e (Option.mem_toList.1 he)
      omega
    · have := hmore e he
      omega
  rw [ofLegNumber_append kept, hlast', ofLegNumber_append kept, hlast]

theorem exists_last (h : Appends (i + 1) shorter longer) :
    ∃ final final' : Option (Break Float),
      ofLegNumber shorter i = final.toList ∧ ofLegNumber longer i = final'.toList ∧
        ∀ e ∈ final, ∀ e' ∈ final', e' = { e with displacement := e'.displacement } := by
  obtain ⟨kept, more, final, final', rfl, rfl, hkept, hfinal, hfinal', hmore, hsame⟩ :=
    h.exists_split
  have hearlier : ofLegNumber kept i = [] := ofLegNumber_eq_nil fun e he => by
    have := hkept e he
    omega
  have hlater : ofLegNumber more i = [] := ofLegNumber_eq_nil fun e he => by
    have := hmore e he
    omega
  have hall (found : Option (Break Float)) (hfound : ∀ e ∈ found, e.legIndex + 1 = i + 1) :
      ofLegNumber found.toList i = found.toList := by
    rw [ofLegNumber, List.filter_eq_self]
    intro e he
    exact decide_eq_true (Nat.succ.inj (hfound e (Option.mem_toList.1 he)))
  refine ⟨final, final', ?_, ?_, hsame⟩
  · rw [ofLegNumber_append, hearlier, hall final hfinal, List.nil_append]
  · rw [ofLegNumber_append, ofLegNumber_append, hearlier, hlater, hall final' hfinal',
      List.nil_append, List.append_nil]

end Appends

/-- **Breaks are only appended.** When bars are appended to a series and swings to its swings, and
the volatility is kept, every leg but the last keeps its break, and so does a leg without one. If
the last leg has a break in both, only the displacement may differ. -/
theorem detect_appendOnly (bars later : List (Bar Float)) (swings more : List (Swing Float))
    (volatility : Float) (settings : StructureSettings Float)
    (hsorted : (swings ++ more).Pairwise fun a b => a.index ≤ b.index)
    (hswings : ∀ s ∈ swings, s.index < bars.length) :
    let legs := Leg.ofSwings swings
    let shorter := detect bars legs volatility settings
    let longer := detect (bars ++ later) (Leg.ofSwings (swings ++ more)) volatility settings
    ∀ i < legs.length, ∃ found found' : Option (Break Float),
      ofLegNumber shorter i = found.toList ∧ ofLegNumber longer i = found'.toList ∧
        (i + 1 < legs.length → found' = found) ∧
        (i + 1 = legs.length →
          ∀ e ∈ found, ∀ e' ∈ found', e' = { e with displacement := e'.displacement }) := by
  intro legs shorter longer i hi
  have hinside : ∀ l ∈ legs, l.start.index < bars.length ∧ l.stop.index < bars.length := by
    intro l hl
    obtain ⟨hstart, hstop⟩ := Leg.ends_mem_of_mem_ofSwings hl
    exact ⟨hswings _ hstart, hswings _ hstop⟩
  have happends : Appends legs.length shorter longer := by
    have h : Appends (0 + legs.length) shorter longer :=
      along_extends (Leg.extends_ofSwings hsorted) hinside later
    rwa [Nat.zero_add] at h
  rcases Nat.lt_or_eq_of_le (Nat.succ_le_of_lt hi) with hbefore | hlast
  · have hordered : shorter.Pairwise fun e f => e.legIndex < f.legIndex ∧ e.barIndex < f.barIndex :=
      along_ordered (Leg.pairwise_ofSwings (hsorted.sublist (List.sublist_append_left swings more)))
    obtain ⟨found, hfound⟩ := exists_ofLegNumber_eq hordered i
    refine ⟨found, found, hfound, (happends.ofLegNumber_eq hbefore).trans hfound,
      fun _ => rfl, fun heq => ?_⟩
    omega
  · obtain ⟨final, final', hfinal, hfinal', hsame⟩ := Appends.exists_last (hlast ▸ happends)
    exact ⟨final, final', hfinal, hfinal', fun hlt => by omega, fun _ => hsame⟩

/-- Swings of `turningBars`, without its low at bar 5. -/
def climbingSwings : List (Swing Float) :=
  [⟨1, .ofSeconds 60, 100.0, .low, 1⟩, ⟨2, .ofSeconds 120, 110.0, .high, 1⟩,
    ⟨3, .ofSeconds 180, 105.0, .low, 1⟩, ⟨4, .ofSeconds 240, 115.0, .high, 1⟩]

/-- A high above the last one. -/
def higherSwing : Swing Float := ⟨6, .ofSeconds 360, 120.0, .high, 1⟩

/-- The last leg runs on from 115 to 120, and its break stays where it was. -/
theorem detect_appendOnly_climbing :
    let bars := turningBars.take 5
    let shorter := detect bars (Leg.ofSwings climbingSwings) 5.0 turningSettings.structural
    let longer := detect (bars ++ turningBars.drop 5)
      (Leg.ofSwings (climbingSwings ++ [higherSwing])) 5.0 turningSettings.structural
    (climbingSwings ++ [higherSwing]).Pairwise (fun a b => a.index ≤ b.index) ∧
      (∀ s ∈ climbingSwings, s.index < bars.length) ∧
      ∃ e ∈ shorter, ∃ e' ∈ longer, e.legIndex = 2 ∧ e.displacement < e'.displacement ∧
        e' = { e with displacement := e'.displacement } := by
  intro bars shorter longer
  have hsorted : (climbingSwings ++ [higherSwing]).Pairwise fun a b => a.index ≤ b.index := by
    decide
  have hswings : ∀ s ∈ climbingSwings, s.index < bars.length := by decide
  obtain ⟨found, found', hfound, hfound', -, hlast⟩ :=
    detect_appendOnly bars (turningBars.drop 5) climbingSwings [higherSwing] 5.0
      turningSettings.structural hsorted hswings 2 (by decide)
  have hgrows : ∃ e ∈ ofLegNumber shorter 2, ∃ e' ∈ ofLegNumber longer 2,
      e.displacement < e'.displacement := by decide
  obtain ⟨e, he, e', he', hlt⟩ := hgrows
  have hsame := hlast (by decide) e (by rwa [hfound, Option.mem_toList] at he) e'
    (by rwa [hfound', Option.mem_toList] at he')
  obtain ⟨hmem, hindex⟩ := List.mem_filter.1 he
  exact ⟨hsorted, hswings, e, hmem, e', (List.mem_filter.1 he').1, of_decide_eq_true hindex, hlt,
    hsame⟩

end PriceAction.Break
