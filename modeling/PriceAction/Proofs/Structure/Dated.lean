import PriceAction.Proofs.Structure.Break
import PriceAction.Proofs.Structure.Swing
import PriceAction.Structure.State

/-!
# Where a structure points

Whatever a structure places at a bar, it dates with the time of that bar (`Dated`): its swings, its
breaks, both ends of its active range and the legs of its retracement bands
(`Structure.coherent_analyze`).
-/

namespace PriceAction

variable {α : Type}

/-- Whether the bar at a position has the given time. -/
def Dated (bars : List (Bar α)) (index : Nat) (time : Instant) : Prop :=
  ∃ bar, bars[index]? = some bar ∧ bar.time = time

theorem Dated.lt_length {bars : List (Bar α)} {index : Nat} {time : Instant}
    (h : Dated bars index time) : index < bars.length := by
  obtain ⟨bar, hbar, -⟩ := h
  exact (List.getElem?_eq_some_iff.1 hbar).1

theorem dated_of_mem_zipIdx {bars : List (Bar α)} {bar : Bar α} {index : Nat}
    (h : (bar, index) ∈ bars.zipIdx) : Dated bars index bar.time :=
  ⟨bar, List.mem_zipIdx_iff_getElem?.1 h, rfl⟩

variable [Scalar α] {bars : List (Bar α)}

/-! ## Swings and legs -/

theorem Swing.dated_of_mem_detect {window cap : Nat} {s : Swing α}
    (h : s ∈ detect bars window cap) : Dated bars s.index s.time := by
  obtain ⟨earlier, bar, later, rfl, hindex, htime, -, -⟩ := exists_of_mem_detect h
  refine ⟨bar, ?_, htime.symm⟩
  simp [hindex]

namespace Leg

theorem stop_mem_of_mem {prior? : Option (Swing α)} {pivots : List (Swing α)} {leg : Leg α}
    (h : leg ∈ legsAlong prior? pivots) : leg.stop ∈ pivots := by
  fun_induction legsAlong prior? pivots with
  | case1 prior? a b rest ih =>
    rcases List.mem_cons.1 h with rfl | htail
    · simp
    · exact List.mem_cons_of_mem a (ih htail)
  | case2 => cases h

theorem ends_mem_of_mem_ofSwings {swings : List (Swing α)} {leg : Leg α}
    (h : leg ∈ ofSwings swings) : leg.start ∈ swings ∧ leg.stop ∈ swings :=
  ⟨(alternate_sublist swings).subset (start_mem_of_mem h),
    (alternate_sublist swings).subset (stop_mem_of_mem h)⟩

end Leg

/-! ## Breaks -/

namespace Break

variable {settings : StructureSettings α} {volatility : α} {e : Break α}

theorem getElem?_of_firstClose? {leg : Leg α} {level : α} {i : Nat} {bar : Bar α}
    (h : firstClose? bars leg level = some (i, bar)) : bars[i]? = some bar := by
  obtain ⟨⟨b, j⟩, hmem, hsome⟩ := List.exists_of_findSome?_eq_some h
  have hhit : some (j, b) = some (i, bar) := (Option.ite_none_right_eq_some.1 hsome).2
  cases hhit
  obtain ⟨hle, hget⟩ := List.mem_zipIdx_iff_le_and_getElem?_sub.1 hmem
  rw [List.getElem?_take, List.getElem?_drop] at hget
  have hin := (Option.ite_none_right_eq_some.1 hget).2
  rwa [Nat.add_sub_cancel' hle] at hin

theorem dated_of_mem_along {legs : List (Leg α)} {last : Option Direction}
    {labels : List SwingLabel} {prior? : Option (Swing α)} {index : Nat}
    (h : e ∈ along settings volatility bars last labels prior? index legs) :
    Dated bars e.barIndex e.time := by
  induction legs generalizing last labels prior? index with
  | nil => cases h
  | cons leg rest ih =>
    rcases mem_along_cons.1 h with hleg | hrest
    · obtain ⟨prior, -, hmap⟩ := Option.bind_eq_some_iff.1 hleg
      obtain ⟨⟨i, bar⟩, hclose, rfl⟩ := Option.map_eq_some_iff.1 hmap
      exact ⟨bar, getElem?_of_firstClose? (of_close? hclose).2.2, rfl⟩
    · exact ih hrest

end Break

/-! ## The active range -/

namespace TradingRange

/-- Whether a range starts and stops at bars, in this order, with one bar after its end. -/
structure Placed (bars : List (Bar α)) (r : TradingRange α) : Prop where
  start : Dated bars r.startIndex r.start
  stop : Dated bars r.stopIndex r.stop
  startIndex_le : r.startIndex ≤ r.stopIndex
  stopIndex_eq : r.stopIndex + 2 = bars.length

omit [Scalar α] in
/-- A bar at a place counted back from the bar before the latest. -/
theorem dated_of_reverse {latest bar : Bar α} {earlier : List (Bar α)} {k : Nat}
    (hbars : bars.reverse = latest :: earlier) (h : earlier[k]? = some bar) :
    Dated bars (bars.length - 2 - k) bar.time := by
  have hk := (List.getElem?_eq_some_iff.1 h).1
  have hlength : bars.length = earlier.length + 1 := by
    rw [← List.length_reverse, hbars, List.length_cons]
  have hplace : bars.reverse[k + 1]? = bars[bars.length - 1 - (k + 1)]? :=
    List.getElem?_reverse (by omega)
  rw [hbars, List.getElem?_cons_succ, h, Nat.sub_sub, show 1 + (k + 1) = 2 + k by omega,
    ← Nat.sub_sub] at hplace
  exact ⟨bar, hplace.symm, rfl⟩

theorem getElem?_of_getLast?_of_isPrefix {β : Type} {xs ys : List β} {x : β} (hinit : xs <+: ys)
    (hlast : xs.getLast? = some x) : ys[xs.length - 1]? = some x := by
  rw [List.getLast?_eq_getElem?] at hlast
  obtain ⟨hlt, -⟩ := List.getElem?_eq_some_iff.1 hlast
  obtain ⟨rest, rfl⟩ := hinit
  rw [List.getElem?_append_left hlt]
  exact hlast

omit [Scalar α] in
/-- The ends of a stretch before the latest bar: `least` bars and those that join before them. -/
theorem dated_of_joined {latest newest oldest : Bar α} {earlier joined : List (Bar α)} {least : Nat}
    (hbars : bars.reverse = latest :: earlier) (hleast : 1 ≤ least) (henough : least ≤ earlier.length)
    (hnewest : (earlier.take least).head? = some newest)
    (holdest : (earlier.take least).getLast? = some oldest)
    (hjoined : joined <+: earlier.drop least) :
    Dated bars (bars.length - 1 - (least + joined.length)) (joined.getLast?.getD oldest).time ∧
      Dated bars (bars.length - 2) newest.time := by
  have hinit : earlier.take least ++ joined <+: earlier := by
    conv_rhs => rw [← List.take_append_drop least earlier]
    exact (List.prefix_append_right_inj _).2 hjoined
  have hlast : (earlier.take least ++ joined).getLast? = some (joined.getLast?.getD oldest) := by
    rw [List.getLast?_append, holdest, Option.or_some]
  have hcount : (earlier.take least ++ joined).length = least + joined.length := by
    rw [List.length_append, List.length_take_of_le henough]
  have hhead : earlier[0]? = some newest := by
    rw [List.head?_take, if_neg (by omega)] at hnewest
    rw [← hnewest, List.head?_eq_getElem?]
  have hstart := dated_of_reverse hbars (getElem?_of_getLast?_of_isPrefix hinit hlast)
  have hplace : bars.length - 2 - (least + joined.length - 1) =
      bars.length - 1 - (least + joined.length) := by omega
  rw [hcount, hplace] at hstart
  exact ⟨hstart, dated_of_reverse hbars hhead⟩

theorem placed_of_detect {settings : RangeSettings} {r : TradingRange α}
    (h : detect bars settings = .ok r) : r.Placed bars := by
  unfold detect at h
  extract_lets least at h
  have hleast : 1 ≤ least := Nat.le_max_right ..
  cases hbars : bars.reverse with
  | nil => simp [hbars] at h
  | cons latest earlier =>
    simp only [hbars] at h
    have hlength : bars.length = earlier.length + 1 := by
      rw [← List.length_reverse, hbars, List.length_cons]
    split at h
    · next newest oldest hnewest holdest =>
      split at h
      · cases h
      · next henough =>
        split at h
        · cases h
        · simp only [Except.ok.injEq] at h
          generalize hjoined : List.takeWhile _ _ = joined at h
          have hjoin : joined <+: earlier.drop least := by
            rw [← hjoined]
            exact (List.takeWhile_prefix _).trans (List.take_prefix _ _)
          obtain ⟨hstart, hstop⟩ :=
            dated_of_joined hbars hleast (Nat.not_lt.1 henough) hnewest holdest hjoin
          subst h
          refine ⟨hstart, hstop, ?_, ?_⟩
          · show bars.length - 1 - (least + joined.length) ≤ bars.length - 2
            omega
          · show bars.length - 2 + 2 = bars.length
            omega
    · cases h

end TradingRange

/-! ## Retracement bands -/

namespace Retracement

variable {settings : RetracementSettings α} {bias : Bias} {volatility : α} {legs : List (Leg α)}
  {z : Retracement α}

omit [Scalar α] in
theorem keepNewest_sublist (most : Nat) (zones : List (Retracement α)) :
    (keepNewest most zones).2.Sublist zones := by
  induction zones with
  | nil => exact .slnil
  | cons z rest ih =>
    rw [keepNewest, List.foldr_cons, ← keepNewest]
    generalize keepNewest most rest = kept at ih ⊢
    obtain ⟨count, later⟩ := kept
    dsimp only
    split
    · exact ih.cons_cons z
    · split
      · exact ih.cons_cons z
      · exact ih.cons z

theorem exists_of_mem_detect {firstLeg : Nat}
    (h : z ∈ detect legs firstLeg volatility bias settings) :
    ∃ leg, legs[z.legIndex]? = some leg ∧ z = ofLeg settings bias leg z.legIndex := by
  rw [detect] at h
  obtain ⟨⟨leg, i⟩, hleg, rfl⟩ := List.mem_map.1 ((keepNewest_sublist _ _).subset h)
  have hmem := List.mem_of_mem_drop (List.mem_filter.1 hleg).1
  exact ⟨leg, List.mem_zipIdx_iff_getElem?.1 hmem, rfl⟩

end Retracement

/-! ## The structure -/

namespace Structure

/-- Whether everything that a structure places at a bar has the time of that bar. -/
structure Coherent (bars : List (Bar α)) (s : Structure α) : Prop where
  swings : ∀ w ∈ s.swings, Dated bars w.index w.time
  legs : ∀ l ∈ s.legs, l.start ∈ s.swings ∧ l.stop ∈ s.swings
  breaks : ∀ e ∈ s.breaks, Dated bars e.barIndex e.time
  range : ∀ r ∈ s.activeRange, r.Placed bars
  retracements : ∀ z ∈ s.retracements, ∃ leg, s.legs[z.legIndex]? = some leg ∧
    Dated bars leg.start.index z.legStart ∧ Dated bars leg.stop.index z.legStop

theorem retracements_eq (bars : List (Bar α)) (settings : Settings α) :
    (analyze bars settings).retracements =
      match averageTrueRange? bars settings.structural.volatilityPeriod with
      | some v => Retracement.detect (analyze bars settings).legs
          (((analyze bars settings).lastCharacter?.map (·.legIndex)).getD 0) v
          (analyze bars settings).bias settings.retracement
      | none => [] := rfl

theorem exists_of_mem_retracements {settings : Settings α} {z : Retracement α}
    (h : z ∈ (analyze bars settings).retracements) :
    ∃ leg, (analyze bars settings).legs[z.legIndex]? = some leg ∧
      z = .ofLeg settings.retracement (analyze bars settings).bias leg z.legIndex := by
  rw [retracements_eq] at h
  split at h
  · exact Retracement.exists_of_mem_detect h
  · cases h

theorem detect_of_activeRange {settings : Settings α} {r : TradingRange α}
    (h : (analyze bars settings).activeRange = some r) :
    TradingRange.detect bars settings.range = .ok r := by
  change (TradingRange.detect bars settings.range).toOption = some r at h
  cases hrange : TradingRange.detect bars settings.range with
  | error shortfall => simp [hrange, Except.toOption] at h
  | ok found =>
    rw [hrange] at h
    cases h
    rfl

theorem coherent_analyze (bars : List (Bar α)) (settings : Settings α) :
    (analyze bars settings).Coherent bars := by
  have hswings : ∀ w ∈ (analyze bars settings).swings, Dated bars w.index w.time :=
    fun w hw => Swing.dated_of_mem_detect hw
  have hlegs : ∀ l ∈ (analyze bars settings).legs,
      l.start ∈ (analyze bars settings).swings ∧ l.stop ∈ (analyze bars settings).swings :=
    fun l hl => Leg.ends_mem_of_mem_ofSwings hl
  refine ⟨hswings, hlegs, ?_, ?_, ?_⟩
  · intro e he
    rw [breaks_analyze] at he
    split at he
    · exact Break.dated_of_mem_along he
    · cases he
  · exact fun r hr => TradingRange.placed_of_detect (detect_of_activeRange hr)
  · intro z hz
    obtain ⟨leg, hleg, hz⟩ := exists_of_mem_retracements hz
    obtain ⟨hstart, hstop⟩ := hlegs leg (List.mem_of_getElem? hleg)
    rw [hz]
    exact ⟨leg, hleg, hswings _ hstart, hswings _ hstop⟩

end Structure

end PriceAction
