import Mathlib.Order.Interval.Set.UnorderedInterval
import PriceAction.Proofs.Bounds.Structure
import PriceAction.Proofs.Rescaling.Structure
import PriceAction.Proofs.Structure.Pivot

/-!
# Where legs head

A leg has the direction of the kind of its end. Its end lies beyond its start in this direction,
unless the bar before the end has already traded through the start (`Leg.detected_heading`); then
the leg may head one way and move the other.
-/

namespace PriceAction

/-! ## The neighbours of a pivot -/

section Lawful

variable {α : Type} [Scalar α] [LawfulScalar α]

namespace Swing

variable {bars : List (Bar α)} {window cap : Nat} {s : Swing α}

omit [LawfulScalar α] in
/-- A swing is the extreme of its bar, strictly beyond the bar before and not short of the
`window` bars after it. -/
theorem of_mem_detect (hwindow : 1 ≤ window) (h : s ∈ detect bars window cap) :
    (∃ bar, bars[s.index]? = some bar ∧ s.price = bar.extreme s.kind.side) ∧
      (∃ i b, i + 1 = s.index ∧ bars[i]? = some b ∧
        s.kind.side.beyond s.price (b.extreme s.kind.side) = true) ∧
      ∀ i b, s.index < i → i ≤ s.index + window → bars[i]? = some b →
        s.kind.side.beyond (b.extreme s.kind.side) s.price = false := by
  obtain ⟨earlier, bar, later, rfl, hindex, -, hprice, hpivot⟩ := exists_of_mem_detect h
  obtain ⟨hbefore, -, hleft, hright⟩ := isPivot_iff.1 hpivot
  rw [List.length_reverse] at hbefore
  refine ⟨⟨bar, by simp [hindex], hprice⟩, ?_, fun i b hi hle hb => ?_⟩
  · have hne : earlier ≠ [] := List.ne_nil_of_length_pos (by omega)
    obtain ⟨init, b, rfl⟩ := (List.eq_nil_or_concat' earlier).resolve_left hne
    refine ⟨init.length, b, by simp [hindex], by simp, ?_⟩
    rw [hprice]
    refine hleft b ?_
    rw [List.reverse_append, List.reverse_singleton, List.singleton_append,
      List.take_cons (by omega)]
    exact List.mem_cons_self
  · rw [hprice]
    refine hright b ?_
    rw [List.getElem?_append_right (by omega), List.getElem?_cons] at hb
    rw [if_neg (by omega)] at hb
    exact List.mem_of_getElem? (i := i - earlier.length - 1)
      (by rw [List.getElem?_take, if_pos (by omega), hb])

end Swing

/-! ## Legs that do not advance -/

namespace Leg

/-- Whether the end of a leg lies strictly beyond its start in its direction. -/
def Advances (l : Leg α) : Prop :=
  l.direction.beyond l.stop.price l.start.price = true

/-- Whether the bar before the end of a leg trades through its start, more than a window after it. -/
def Undercut (bars : List (Bar α)) (window : Nat) (l : Leg α) : Prop :=
  ∃ i b, i + 1 = l.stop.index ∧ bars[i]? = some b ∧ l.start.index + window < i ∧
    l.direction.opposite.beyond (b.extreme l.direction.opposite) l.start.price = true

variable {bars : List (Bar α)} {window cap : Nat} {leg : Leg α}

omit [Scalar α] [LawfulScalar α] in
theorem side_start_eq (h : leg.start.kind ≠ leg.stop.kind) :
    leg.start.kind.side = leg.direction.opposite := by
  rw [direction]
  cases hstart : leg.start.kind <;> cases hstop : leg.stop.kind <;> simp_all [SwingKind.side,
    Direction.opposite]

theorem advances_or_undercut (hclean : IsClean bars) (hwindow : 1 ≤ window)
    (h : leg ∈ ofSwings (Swing.detect bars window cap)) :
    leg.Advances ∨ leg.Undercut bars window := by
  obtain ⟨hstart, hstop⟩ := ends_mem_of_mem_ofSwings h
  have hle := index_le_of_mem_ofSwings (Swing.pairwise_detect bars window cap) h
  obtain ⟨⟨first, hfirst, hstartPrice⟩, ⟨i', b', hi', hb', hnear'⟩, hafter⟩ :=
    Swing.of_mem_detect hwindow hstart
  obtain ⟨⟨final, hfinal, hstopPrice⟩, ⟨i, b, hi, hb, hnear⟩, -⟩ :=
    Swing.of_mem_detect hwindow hstop
  rw [side_start_eq (kind_ne_of_mem_ofSwings h)] at hstartPrice hnear' hafter
  change leg.direction.beyond leg.stop.price (b.extreme leg.direction) = true at hnear
  rw [or_iff_not_imp_left]
  intro hretreats
  have hformed (x : Bar α) (j : Nat) (hx : bars[j]? = some x) : x.isWellFormed = true :=
    hclean.wellFormed x (List.mem_of_getElem? hx)
  have hthrough : leg.direction.opposite.beyond (b.extreme leg.direction.opposite)
      leg.start.price = true := by
    refine Direction.opposite_beyond_of_not_beyond ?_ ?_
      (Bar.beyond_opposite_extreme (hformed b i hb) hnear) hretreats
    · rw [hstopPrice]
      exact Bar.isFinite_extreme (hformed final _ hfinal) _
    · rw [hstartPrice]
      exact Bar.isFinite_extreme (hformed first _ hfirst) _
  -- a bar at the start, or within a window of it, does not trade through it
  refine ⟨i, b, hi, hb, ?_, hthrough⟩
  by_contra hclose
  rcases Nat.lt_trichotomy i leg.start.index with hbefore | hsame | hlater
  · obtain rfl : i = i' := by omega
    rw [hb, Option.some.injEq] at hb'
    subst hb'
    rw [Direction.not_beyond_of_beyond hnear'] at hthrough
    cases hthrough
  · rw [hsame, hfirst, Option.some.injEq] at hb
    rw [hstartPrice, hb, Direction.beyond_self] at hthrough
    cases hthrough
  · rw [hafter i b hlater (by omega) hb] at hthrough
    cases hthrough

end Leg

end Lawful

/-! ## Bands of legs that advance -/

/-- Between the start and the end of a leg that advances lies every share of it, measured back from
the end. -/
theorem Retracement.band_mem_uIcc {settings : RetracementSettings Rat} {leg : Leg Rat}
    (hnear : 0 ≤ settings.nearShare) (hlt : settings.nearShare < settings.farShare)
    (hfar : settings.farShare ≤ 1) (h : leg.Advances) :
    (band settings leg).1 ∈ Set.uIcc leg.start.price leg.stop.price ∧
      (band settings leg).2 ∈ Set.uIcc leg.start.price leg.stop.price := by
  have hamplitude := leg.amplitude_nonneg
  have hfar_le := mul_le_of_le_one_left hamplitude hfar
  have hnear_le := mul_le_of_le_one_left hamplitude (hlt.le.trans hfar)
  have hnear_nonneg := mul_nonneg hnear hamplitude
  have hfar_nonneg := mul_nonneg (hnear.trans hlt.le) hamplitude
  rw [Leg.Advances] at h
  rw [band]
  cases hdirection : leg.direction with
  | bullish =>
    rw [hdirection] at h
    have hup : leg.start.price < leg.stop.price := of_decide_eq_true h
    have heq : leg.amplitude = leg.stop.price - leg.start.price := by
      rw [Leg.amplitude, Scalar.abs_eq, abs_of_pos (sub_pos.2 hup)]
    rw [Set.uIcc_of_le hup.le]
    constructor <;> constructor <;> linarith
  | bearish =>
    rw [hdirection] at h
    have hdown : leg.stop.price < leg.start.price := of_decide_eq_true h
    have heq : leg.amplitude = leg.start.price - leg.stop.price := by
      rw [Leg.amplitude, Scalar.abs_eq, abs_of_neg (sub_neg.2 hdown), neg_sub]
    rw [Set.uIcc_of_ge hdown.le]
    constructor <;> constructor <;> linarith

namespace Leg

/-- **Where detected legs head.** On clean bars a leg between swings ends beyond its start in its
direction, unless the bar before its end has traded through the start by then. In exact arithmetic
the band of every other leg lies between its start and its end. -/
theorem detected_heading (cap : Nat) {window : Nat} (hwindow : 1 ≤ window) :
    (∀ bars : List (Bar Float), IsClean bars →
        ∀ leg ∈ ofSwings (Swing.detect bars window cap),
          leg.Advances ∨ leg.Undercut bars window) ∧
      ∀ (bars : List (Bar Rat)) (settings : RetracementSettings Rat), IsClean bars →
        0 ≤ settings.nearShare → settings.nearShare < settings.farShare →
        settings.farShare ≤ 1 →
        ∀ leg ∈ ofSwings (Swing.detect bars window cap), leg.Undercut bars window ∨
          leg.Advances ∧
          (Retracement.band settings leg).1 ∈ Set.uIcc leg.start.price leg.stop.price ∧
          (Retracement.band settings leg).2 ∈ Set.uIcc leg.start.price leg.stop.price := by
  refine ⟨fun _ hclean leg hleg => advances_or_undercut hclean hwindow hleg, ?_⟩
  intro bars settings hclean hnear hlt hfar leg hleg
  rcases advances_or_undercut hclean hwindow hleg with hadvances | hundercut
  · exact .inr ⟨hadvances, Retracement.band_mem_uIcc hnear hlt hfar hadvances⟩
  · exact .inl hundercut

/-- A fall that pauses at a low and then, far below it, at a high. -/
def fallingBars : List (Bar Float) :=
  [(104.0, 105.0, 103.0, 103.5), (103.5, 104.0, 102.0, 102.2), (102.0, 102.5, 100.0, 100.5),
    (100.5, 102.0, 100.2, 100.8), (100.8, 101.5, 100.1, 100.2), (100.2, 100.4, 98.0, 98.2),
    (98.2, 98.4, 96.0, 96.5), (96.5, 97.0, 95.0, 95.5), (95.5, 99.0, 94.0, 94.5),
    (94.5, 95.0, 92.0, 92.5), (92.5, 93.0, 91.0, 91.5)].zipIdx.map
      fun ((opening, high, low, close), i) =>
        ⟨.ofSeconds (60 * i), opening, high, low, close, 100.0⟩

theorem isClean_fallingBars : IsClean fallingBars :=
  ⟨by decide +kernel, by decide⟩

/-- Between the low and the high there is no other swing, so the fall from one to the other makes a
leg that is called a rise, with its band below both. -/
theorem retreats_fallingBars :
    IsClean fallingBars ∧ ∃ leg ∈ ofSwings (Swing.detect fallingBars 2 4),
      leg.direction = .bullish ∧ leg.start.index < leg.stop.index ∧
        leg.stop.price < leg.start.price ∧
        (Retracement.band .standard leg).2 < leg.stop.price :=
  ⟨isClean_fallingBars, by decide⟩

theorem detected_heading_fallingBars :
    (IsClean fallingBars ∧ ∃ leg ∈ ofSwings (Swing.detect fallingBars 2 4),
        ¬leg.Advances ∧ leg.Undercut fallingBars 2) ∧
      IsClean Structure.zigzag ∧ ∀ leg ∈ ofSwings (Swing.detect Structure.zigzag 1 4),
        leg.Advances ∧
        (Retracement.band .standard leg).1 ∈ Set.uIcc leg.start.price leg.stop.price ∧
        (Retracement.band .standard leg).2 ∈ Set.uIcc leg.start.price leg.stop.price := by
  have hretreats : ∃ leg ∈ ofSwings (Swing.detect fallingBars 2 4),
      ¬leg.direction.beyond leg.stop.price leg.start.price = true := by decide
  obtain ⟨leg, hleg, hnot⟩ := hretreats
  have hundercut :=
    ((detected_heading 4 (by decide)).1 fallingBars isClean_fallingBars leg hleg).resolve_left hnot
  have hclean : IsClean Structure.zigzag := ⟨by decide +kernel, by decide⟩
  have hshort : ∀ leg ∈ ofSwings (Swing.detect Structure.zigzag 1 4),
      leg.stop.index = leg.start.index + 1 := by decide
  refine ⟨⟨isClean_fallingBars, leg, hleg, hnot, hundercut⟩, hclean, fun leg hleg => ?_⟩
  refine ((detected_heading 4 (by decide)).2 Structure.zigzag .standard hclean
    (by decide +kernel) (by decide +kernel) (by decide +kernel) leg hleg).resolve_left ?_
  rintro ⟨i, b, hi, -, hlt, -⟩
  have := hshort leg hleg
  omega

end Leg

end PriceAction
