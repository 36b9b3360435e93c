import PriceAction.Proofs.Rescaling.Basic
import PriceAction.Structure.Leg

/-!
# Swings and legs of rescaled prices

A bar is a swing of rescaled prices exactly if it was one before, of the kind that has taken the
place of its own. Swings come in the same order unless a bar that closes where it opened is both a
high and a low (`Swing.detect_rescale`), and legs and labels follow them (`Leg.ofSwings_rescale`).
-/

namespace PriceAction

/-! ## Sides -/

instance : Sided SwingKind where
  opposite
    | .high => .low
    | .low => .high
  opposite_opposite k := by cases k <;> rfl

instance : Sided SwingLabel where
  opposite
    | .higherHigh => .lowerLow
    | .higherLow => .lowerHigh
    | .lowerHigh => .higherLow
    | .lowerLow => .higherHigh
  opposite_opposite l := by cases l <;> rfl

instance : Sided Trend where
  opposite
    | .up => .down
    | .down => .up
    | .range => .range
    | .unknown => .unknown
  opposite_opposite t := by cases t <;> rfl

variable {c k : Rat}

theorem SwingKind.side_turned (c : Rat) (kind : SwingKind) :
    (turned c kind).side = turned c kind.side :=
  map_turned (fun kind => by cases kind <;> rfl) c kind

theorem SwingLabel.direction_turned (c : Rat) (l : SwingLabel) :
    (turned c l).direction = turned c l.direction :=
  map_turned (fun l => by cases l <;> rfl) c l

theorem SwingKind.price_rescale (c : Rat) (kind : SwingKind) (b : Bar Rat) :
    (turned c kind).price (b.rescale c) = c * kind.price b := by
  rw [price, side_turned, Bar.extreme_turned, price]

theorem SwingKind.beyond_rescale (hc : c ≠ 0) (kind : SwingKind) (x y : Rat) :
    (turned c kind).beyond (c * x) (c * y) = kind.beyond x y := by
  rw [beyond, side_turned, Direction.beyond_rescale hc, beyond]

/-! ## Swings -/

namespace Swing

/-- The swing with its price multiplied by a factor. -/
@[simps] def rescale (c : Rat) (s : Swing Rat) : Swing Rat where
  index := s.index
  time := s.time
  price := c * s.price
  kind := turned c s.kind
  strength := s.strength

theorem isPivot_rescale (hc : c ≠ 0) (kind : SwingKind) (before : List (Bar Rat)) (bar : Bar Rat)
    (after : List (Bar Rat)) (n : Nat) :
    isPivot (turned c kind) (before.map (Bar.rescale c)) (bar.rescale c)
      (after.map (Bar.rescale c)) n = isPivot kind before bar after n := by
  simp only [isPivot, ← List.map_take, List.length_map, List.all_map, Function.comp_def,
    SwingKind.price_rescale, SwingKind.beyond_rescale hc]

theorem strengthOf_rescale (hc : c ≠ 0) (kind : SwingKind) (before : List (Bar Rat))
    (bar : Bar Rat) (after : List (Bar Rat)) (window cap : Nat) :
    strengthOf (turned c kind) (before.map (Bar.rescale c)) (bar.rescale c)
      (after.map (Bar.rescale c)) window cap = strengthOf kind before bar after window cap := by
  simp only [strengthOf, List.length_map, isPivot_rescale hc]

/-- Both kinds of swing, in the order in which a bar shows them. -/
def kinds (bar : Bar Rat) : List SwingKind :=
  if bar.isBullish then [.low, .high] else [.high, .low]

theorem kinds_rescale_of_pos (hk : 0 < k) (bar : Bar Rat) :
    kinds (bar.rescale k) = (kinds bar).map (turned k) := by
  have hbull : (bar.rescale k).isBullish = bar.isBullish :=
    decide_eq_decide.2 (mul_le_mul_iff_right₀ hk)
  rw [kinds, hbull, kinds]
  cases bar.isBullish <;> simp [hk]

theorem kinds_rescale_of_neg (hc : c < 0) {bar : Bar Rat} (h : bar.opening ≠ bar.close) :
    kinds (bar.rescale c) = (kinds bar).map (turned c) := by
  have hbull : (bar.rescale c).isBullish = !bar.isBullish := by
    rw [Bar.isBullish, Bar.isBullish, ← decide_not, decide_eq_decide]
    exact (mul_le_mul_left_of_neg hc).trans (h.symm.le_iff_lt.trans not_le.symm)
  rw [kinds, hbull, kinds]
  cases bar.isBullish <;> simp [turned_of_neg hc, Sided.opposite]

/-- On a bar that closes where it opened the order of the kinds stays, although they change
places. It is no matter where the bar is of one kind only. -/
theorem filter_kinds_of_still (hc : c < 0) {bar : Bar Rat} (h : bar.opening = bar.close)
    {p : SwingKind → Bool} (hone : p .high → ¬p .low) :
    (kinds (bar.rescale c)).filter p = ((kinds bar).map (turned c)).filter p := by
  have hbull : bar.isBullish = true := decide_eq_true (le_of_eq h)
  have hbull' : (bar.rescale c).isBullish = true :=
    decide_eq_true (le_of_eq (congrArg (c * ·) h))
  rw [kinds, hbull', kinds, hbull]
  cases hhigh : p .high <;> cases hlow : p .low <;>
    simp_all [turned_of_neg hc, Sided.opposite]

theorem atBar_rescale (hc : c ≠ 0) {window : Nat} {before : List (Bar Rat)} {bar : Bar Rat}
    {after : List (Bar Rat)}
    (hone : c < 0 → bar.opening = bar.close → isPivot .high before bar after window →
      ¬isPivot .low before bar after window) (cap : Nat) :
    atBar window cap (before.map (Bar.rescale c)) (bar.rescale c) (after.map (Bar.rescale c)) =
      (atBar window cap before bar after).map (rescale c) := by
  have hpivot (kind : SwingKind) := isPivot_rescale hc kind before bar after window
  have hkinds : (kinds (bar.rescale c)).filter (fun kind => isPivot kind
      (before.map (Bar.rescale c)) (bar.rescale c) (after.map (Bar.rescale c)) window) =
      ((kinds bar).map (turned c)).filter fun kind => isPivot kind
        (before.map (Bar.rescale c)) (bar.rescale c) (after.map (Bar.rescale c)) window := by
    rcases lt_or_gt_of_ne hc with h | h
    · -- the order of the kinds is at stake on a bar that closes where it opened
      by_cases hstill : bar.opening = bar.close
      · refine filter_kinds_of_still h hstill fun hhigh hlow => ?_
        have hswap (kind : SwingKind) : turned c kind = Sided.opposite kind := turned_of_neg h kind
        have hp := hpivot .high
        have hp' := hpivot .low
        rw [hswap] at hp hp'
        exact hone h hstill (hp ▸ hlow) (hp' ▸ hhigh)
      · rw [kinds_rescale_of_neg h hstill]
    · rw [kinds_rescale_of_pos h]
  show ((kinds _).filter _).map _ = (((kinds bar).filter _).map _).map _
  rw [hkinds, List.filter_map, List.map_map, List.map_map]
  simp only [Function.comp_def, hpivot]
  refine List.map_congr_left fun kind _ => ?_
  simp only [rescale, List.length_map, SwingKind.price_rescale, strengthOf_rescale hc,
    Bar.time_rescale]

/-- Whether no bar that closes where it opened is a swing of both kinds. -/
def OneKindEach (bars : List (Bar Rat)) (swings : List (Swing Rat)) : Prop :=
  ∀ s ∈ swings, ∀ s' ∈ swings, s.kind = .high → s'.kind = .low → s.index = s'.index →
    ∀ b ∈ bars[s.index]?, b.opening ≠ b.close

theorem exists_mem_atBar {kind : SwingKind} {window : Nat} {before : List (Bar Rat)}
    {bar : Bar Rat} {after : List (Bar Rat)} (h : isPivot kind before bar after window)
    (cap : Nat) :
    ∃ s ∈ atBar window cap before bar after, s.kind = kind ∧ s.index = before.length := by
  have hkind : kind ∈ kinds bar := by
    rw [kinds]
    cases kind <;> split <;> simp
  exact ⟨_, List.mem_map_of_mem (List.mem_filter.2 ⟨hkind, h⟩), rfl, rfl⟩

theorem scan_rescale (hc : c ≠ 0) {window cap : Nat} {before bars : List (Bar Rat)}
    (hone : c < 0 → OneKindEach (before.reverse ++ bars) (scan window cap before bars)) :
    scan window cap (before.map (Bar.rescale c)) (bars.map (Bar.rescale c)) =
      (scan window cap before bars).map (rescale c) := by
  induction bars generalizing before with
  | nil => rfl
  | cons bar after ih =>
    have hbar (h : c < 0) (hstill : bar.opening = bar.close)
        (hhigh : isPivot .high before bar after window) :
        ¬isPivot .low before bar after window := fun hlow => by
      obtain ⟨s, hs, hkind, hindex⟩ := exists_mem_atBar hhigh cap
      obtain ⟨s', hs', hkind', hindex'⟩ := exists_mem_atBar hlow cap
      refine hone h s (List.mem_append_left _ hs) s' (List.mem_append_left _ hs') hkind hkind'
        (hindex.trans hindex'.symm) bar ?_ hstill
      rw [hindex]
      simp
    have hafter (h : c < 0) : OneKindEach ((bar :: before).reverse ++ after)
        (scan window cap (bar :: before) after) := fun s hs s' hs' => by
      rw [List.reverse_cons, List.append_assoc]
      exact hone h s (List.mem_append_right _ hs) s' (List.mem_append_right _ hs')
    rw [List.map_cons, scan, scan, List.map_append, atBar_rescale hc hbar, ← ih hafter,
      List.map_cons]

theorem detect_rescale (hc : c ≠ 0) {bars : List (Bar Rat)} {window cap : Nat}
    (hone : c < 0 → OneKindEach bars (detect bars window cap)) :
    detect (bars.map (Bar.rescale c)) window cap = (detect bars window cap).map (rescale c) := by
  rw [detect] at hone ⊢
  rw [detect]
  by_cases hwindow : window = 0
  · rw [if_pos hwindow, if_pos hwindow, List.map_nil]
  · rw [if_neg hwindow] at hone
    rw [if_neg hwindow, if_neg hwindow]
    exact scan_rescale hc hone

end Swing

/-! ## Legs -/

theorem SwingLabel.of_rescale (hc : c ≠ 0) (kind : SwingKind) (price earlier : Rat) :
    SwingLabel.of (turned c kind) (c * price) (c * earlier) =
      turned c (SwingLabel.of kind price earlier) := by
  have hbeyond := SwingKind.beyond_rescale hc kind price earlier
  rcases lt_or_gt_of_ne hc with h | h
  · rw [turned_of_neg h] at hbeyond ⊢
    rw [turned_of_neg h]
    unfold of
    rw [hbeyond]
    cases kind <;> cases SwingKind.beyond _ price earlier <;> rfl
  · rw [turned_of_pos h] at hbeyond ⊢
    rw [turned_of_pos h]
    unfold of
    rw [hbeyond]

/-- The leg with its prices multiplied by a factor. -/
@[simps] def Leg.rescale (c : Rat) (l : Leg Rat) : Leg Rat where
  start := l.start.rescale c
  stop := l.stop.rescale c
  label := l.label.map (turned c)

theorem addPivot_rescale (hc : c ≠ 0) (pivots : List (Swing Rat)) (s : Swing Rat) :
    addPivot (pivots.map (Swing.rescale c)) (s.rescale c) =
      (addPivot pivots s).map (Swing.rescale c) := by
  cases pivots with
  | nil => rfl
  | cons last earlier =>
    have hbeyond : (s.rescale c).kind.beyond (s.rescale c).price (last.rescale c).price =
        s.kind.beyond s.price last.price := SwingKind.beyond_rescale hc s.kind s.price last.price
    have hkind : (last.rescale c).kind = (s.rescale c).kind ↔ last.kind = s.kind := turned_inj
    rw [List.map_cons, addPivot, addPivot, hbeyond, apply_ite (List.map _),
      apply_ite (List.map _)]
    simp only [hkind, List.map_cons]

theorem alternate_rescale (hc : c ≠ 0) (swings : List (Swing Rat)) :
    alternate (swings.map (Swing.rescale c)) = (alternate swings).map (Swing.rescale c) := by
  have hfold (pivots : List (Swing Rat)) :
      (swings.map (Swing.rescale c)).foldl addPivot (pivots.map (Swing.rescale c)) =
        (swings.foldl addPivot pivots).map (Swing.rescale c) := by
    rw [List.foldl_map]
    exact List.foldl_hom _ (addPivot_rescale hc)
  rw [alternate, alternate, List.map_reverse]
  exact congrArg List.reverse (hfold [])

theorem legsAlong_rescale (hc : c ≠ 0) (prior? : Option (Swing Rat)) (pivots : List (Swing Rat)) :
    legsAlong (prior?.map (Swing.rescale c)) (pivots.map (Swing.rescale c)) =
      (legsAlong prior? pivots).map (Leg.rescale c) := by
  induction pivots generalizing prior? with
  | nil => rfl
  | cons a rest ih =>
    cases rest with
    | nil => rfl
    | cons b rest =>
      have htail := ih (some a)
      rw [List.map_cons] at htail
      rw [List.map_cons, List.map_cons, legsAlong, legsAlong, List.map_cons, ← htail,
        Option.map_map]
      simp only [Leg.rescale, Option.map_map, Function.comp_def, ← SwingLabel.of_rescale hc]
      rfl

namespace Leg

theorem ofSwings_rescale (hc : c ≠ 0) (swings : List (Swing Rat)) :
    ofSwings (swings.map (Swing.rescale c)) = (ofSwings swings).map (rescale c) := by
  rw [ofSwings, alternate_rescale hc]
  exact legsAlong_rescale hc none (alternate swings)

theorem labels_rescale (c : Rat) (legs : List (Leg Rat)) :
    labels (legs.map (rescale c)) = (labels legs).map (turned c) := by
  simp only [labels, List.filterMap_map, List.map_filterMap, Function.comp_def, rescale]

theorem direction_rescale (c : Rat) (l : Leg Rat) :
    (l.rescale c).direction = turned c l.direction :=
  SwingKind.side_turned c l.stop.kind

theorem amplitude_rescale (c : Rat) (l : Leg Rat) :
    (l.rescale c).amplitude = |c| * l.amplitude := by
  show Scalar.abs (c * l.stop.price - c * l.start.price) = _
  rw [Scalar.abs_sub_rescale]
  rfl

theorem mid_rescale (c : Rat) (l : Leg Rat) : (l.rescale c).mid = c * l.mid := by
  show (c * l.stop.price + c * l.start.price) / 2.0 = c * ((l.stop.price + l.start.price) / 2.0)
  rw [← mul_add, mul_div_assoc]

end Leg

/-- The trend of the labels turns with them: of two labels or more, not all are both bullish and
bearish. -/
theorem Trend.ofLabels?_rescale (hc : c ≠ 0) (labels : List SwingLabel) (window : Nat) :
    ofLabels? (labels.map (turned c)) window = (ofLabels? labels window).map (turned c) := by
  rcases lt_or_gt_of_ne hc with h | h
  · rw [ofLabels?, ofLabels?, List.length_map, ← List.map_drop]
    by_cases hfew : labels.length < 2
    · rw [if_pos hfew, if_pos hfew, Option.map_none]
    · have hlatest : labels.drop (labels.length - max window 2) ≠ [] := by
        rw [Ne, List.drop_eq_nil_iff]
        omega
      rw [if_neg hfew, if_neg hfew]
      generalize labels.drop (labels.length - max window 2) = latest at hlatest
      obtain ⟨l, rest, rfl⟩ := List.exists_cons_of_ne_nil hlatest
      have hturn (l : SwingLabel) (d : Direction) :
          (turned c l).direction = d ↔ l.direction = d.opposite := by
        rw [SwingLabel.direction_turned, turned_of_neg h]
        cases l.direction <;> cases d <;> simp [Sided.opposite, Direction.opposite]
      simp only [List.all_map, Function.comp_def, hturn, Direction.opposite]
      -- the two tests change places, and with a label at hand at most one of them succeeds
      by_cases hbull : (l :: rest).all fun l => l.direction = .bullish
      · have hbear : ¬(l :: rest).all fun l => l.direction = .bearish := by
          simp_all
        rw [if_neg hbear, if_pos hbull, if_pos hbull, Option.map_some, turned_of_neg h]
        rfl
      · rw [if_neg hbull, if_neg hbull, apply_ite (Option.map _)]
        simp [turned_of_neg h, Sided.opposite]
  · rw [turned_eq_id h, turned_eq_id h, List.map_id, Option.map_id, id]

end PriceAction
