import Mathlib.Data.List.TakeWhile
import PriceAction.Liquidity.Pool
import PriceAction.Proofs.Extreme
import PriceAction.Proofs.Floating.Bound
import PriceAction.Proofs.Indexed.Range

/-!
# The active range is a longest stretch

The bars just before the latest one set the bounds of the range, and the bars before them join it
for as long as they stay within these bounds. So its bounds are the extremes of all of its bars, and
one bar more would leave them, unless there is none or the range is as long as it may be
(`TradingRange.exists_maximal`).
-/

namespace PriceAction

/-! ## Extremes of finite numbers -/

namespace Direction

variable {α : Type} [Scalar α] {d : Direction} {a b : α} {xs : List α}

/-- The more extreme of two values, the first if neither lies beyond the other. -/
def further : Direction → α → α → α
  | .bullish => Scalar.max
  | .bearish => Scalar.min

variable [LawfulScalar α]

theorem further_eq (ha : Scalar.isFinite a = true) :
    d.further a b = if d.beyond b a then b else a := by
  have hself := LawfulScalar.le_self ha
  cases d with
  | bullish => simp only [further, Scalar.max, beyond, if_pos hself, decide_eq_true_iff]
  | bearish => simp only [further, Scalar.min, beyond, if_pos hself, decide_eq_true_iff]

theorem firstExtreme_foldl_further (hfinite : ∀ x ∈ a :: xs, Scalar.isFinite x = true) :
    d.FirstExtreme id (a :: xs) (xs.foldl d.further a) := by
  induction xs using List.reverseRecOn with
  | nil => exact FirstExtreme.singleton d id a
  | append_singleton xs b ih =>
    have hfinite' : ∀ x ∈ a :: xs, Scalar.isFinite x = true := fun x hx =>
      hfinite x (List.cons_append ▸ List.mem_append_left [b] hx)
    have hextreme := ih hfinite'
    rw [List.foldl_concat, further_eq (hfinite' _ hextreme.mem), ← List.cons_append]
    exact hextreme.concat hfinite' b

/-- Where the search for the most extreme number starts. -/
def farthest : Direction → Float
  | .bullish => -Floating.largest
  | .bearish => Floating.largest

theorem isFinite_farthest (d : Direction) : Scalar.isFinite d.farthest = true := by
  cases d with
  | bullish => exact Floating.isFinite_neg_largest
  | bearish => exact Floating.isFinite_largest

variable {xs : List Float} (hfinite : ∀ x ∈ xs, Scalar.isFinite x = true)
include hfinite

theorem isFinite_of_mem_cons_farthest : ∀ x ∈ d.farthest :: xs, Scalar.isFinite x = true := by
  intro x hx
  rcases List.mem_cons.1 hx with rfl | hx
  · exact isFinite_farthest d
  · exact hfinite x hx

theorem firstExtreme_outermost :
    d.FirstExtreme id (d.farthest :: xs) (Pool.outermost d xs) := by
  have hfold : Pool.outermost d xs = xs.foldl d.further d.farthest := by cases d <;> rfl
  rw [hfold]
  exact firstExtreme_foldl_further (isFinite_of_mem_cons_farthest hfinite)

theorem isFinite_outermost : Scalar.isFinite (Pool.outermost d xs) = true :=
  isFinite_of_mem_cons_farthest hfinite _ (firstExtreme_outermost hfinite).mem

end Direction

/-! ## Bars that join -/

theorem takeWhile_eq_self_or_exists {β : Type} (p : β → Bool) (xs : List β) :
    xs.takeWhile p = xs ∨ ∃ x, xs[(xs.takeWhile p).length]? = some x ∧ p x = false := by
  induction xs with
  | nil => exact .inl rfl
  | cons x rest ih =>
    cases hx : p x with
    | true =>
      rw [List.takeWhile_cons_of_pos hx, List.length_cons, List.getElem?_cons_succ]
      exact ih.imp_left (congrArg (x :: ·))
    | false =>
      rw [List.takeWhile_cons_of_neg (Bool.eq_false_iff.1 hx)]
      exact .inr ⟨x, rfl, hx⟩

/-- The elements at the end of a list that have a property, up to `room` of them. -/
theorem exists_joined {β : Type} (p : β → Bool) (xs : List β) (room : Nat) :
    ∃ k, ((xs.reverse.take room).takeWhile p).length = k ∧ k ≤ room ∧ k ≤ xs.length ∧
      (∀ x ∈ xs.drop (xs.length - k), p x = true) ∧
      (k = room ∨ k = xs.length ∨ ∃ x, xs[xs.length - k - 1]? = some x ∧ p x = false) := by
  have hstopped := takeWhile_eq_self_or_exists p (xs.reverse.take room)
  generalize hjoined : (xs.reverse.take room).takeWhile p = joined at hstopped ⊢
  have hinit : joined <+: xs.reverse.take room := hjoined ▸ List.takeWhile_prefix p
  have hlength := hinit.length_le
  rw [List.length_take, List.length_reverse] at hlength
  have heq : joined.reverse = xs.drop (xs.length - joined.length) := by
    rw [List.prefix_iff_eq_take.1 (hinit.trans (List.take_prefix ..)), List.reverse_take,
      List.reverse_reverse, List.length_reverse, List.length_take, List.length_reverse]
    congr 1
    omega
  refine ⟨joined.length, rfl, by omega, by omega, fun x hx => ?_, ?_⟩
  · rw [← heq, List.mem_reverse, ← hjoined] at hx
    exact List.mem_takeWhile_imp hx
  · rcases hstopped with hall | ⟨x, hx, hnot⟩
    · have hmin := congrArg List.length hall
      rw [List.length_take, List.length_reverse] at hmin
      omega
    · obtain ⟨hlt, hx⟩ := Option.ite_none_right_eq_some.1 (List.getElem?_take ▸ hx)
      have hbound := (List.getElem?_eq_some_iff.1 hx).1
      rw [List.length_reverse] at hbound
      rw [List.getElem?_reverse hbound, Nat.sub_right_comm] at hx
      exact .inr (.inr ⟨x, hx, hnot⟩)

/-! ## Settings -/

namespace RangeSettings

/-- The least number of bars of a range, which is not zero. -/
def least (s : RangeSettings) : Nat := max s.leastBars 1

/-- The greatest number of bars of a range, which is not below the least. -/
def most (s : RangeSettings) : Nat := max s.mostBars s.least

end RangeSettings

namespace TradingRange

section Definitions

variable {α : Type} [Scalar α]

/-- The last `least` bars before the latest one. -/
def base (bars : List (Bar α)) (least : Nat) : List (Bar α) :=
  bars.dropLast.drop (bars.length - 1 - least)

/-- Whether no bar trades above the low of any. -/
def Flat (bars : List (Bar α)) : Prop :=
  ∀ a ∈ bars, ∀ b ∈ bars, a.high ≤ b.low

/-- Whether a bar stays within the bounds of a range. -/
def Holds (r : TradingRange α) (b : Bar α) : Prop :=
  b.high ≤ r.high ∧ r.low ≤ b.low

/-- Whether a range ends just before the latest bar, with as many bars as the settings allow, whose
extremes are its bounds and are reached in its last bars, and cannot start earlier. -/
structure Maximal (bars : List (Bar α)) (settings : RangeSettings) (r : TradingRange α) : Prop where
  placed : r.Placed bars
  length_window : (r.window bars).length = r.barCount
  barCount_mem : r.barCount ∈ Set.Icc settings.least settings.most
  holds : ∀ b ∈ r.window bars, r.Holds b
  base_suffix : base bars settings.least <:+ r.window bars
  length_base : (base bars settings.least).length = settings.least
  attained : ∀ d, ∃ b ∈ base bars settings.least, b.extreme d = r.extreme d
  maximal : r.startIndex = 0 ∨ r.barCount = settings.most ∨
    ∃ b, bars[r.startIndex - 1]? = some b ∧ ¬r.Holds b
  deviatedUp_iff : ∀ latest ∈ bars.getLast?, r.state = .deviatedUp ↔ r.high < latest.close
  deviatedDown_iff : ∀ latest ∈ bars.getLast?, r.state = .deviatedDown ↔ latest.close < r.low

omit [Scalar α] in
theorem base_concat (init : List (Bar α)) (latest : Bar α) (least : Nat) :
    base (init ++ [latest]) least = init.drop (init.length - least) := by
  rw [base, List.dropLast_concat, List.length_append, List.length_singleton, Nat.add_sub_cancel]

end Definitions

/-! ## The bars that set the bounds -/

section Base

variable {bars : List (Bar Float)} {b : Bar Float}

/-- The extreme of a list of bars on a side. -/
def limit (bars : List (Bar Float)) (d : Direction) : Float :=
  Pool.outermost d (bars.map (·.extreme d))

variable (hfinite : ∀ b ∈ bars, ∀ d, Scalar.isFinite (b.extreme d) = true)
include hfinite

theorem isFinite_of_mem_extremes (d : Direction) :
    ∀ x ∈ bars.map (·.extreme d), Scalar.isFinite x = true :=
  List.forall_mem_map.2 fun b hb => hfinite b hb d

theorem isFinite_limit (d : Direction) : Scalar.isFinite (limit bars d) = true :=
  Direction.isFinite_outermost (isFinite_of_mem_extremes hfinite d)

theorem firstExtreme_limit (d : Direction) :
    d.FirstExtreme id (d.farthest :: bars.map (·.extreme d)) (limit bars d) :=
  Direction.firstExtreme_outermost (isFinite_of_mem_extremes hfinite d)

theorem not_beyond_limit (d : Direction) (hb : b ∈ bars) :
    d.beyond (b.extreme d) (limit bars d) = false :=
  (firstExtreme_limit hfinite d).extreme _ (List.mem_cons_of_mem _ (List.mem_map_of_mem hb))

theorem within_limits (hb : b ∈ bars) :
    b.high ≤ limit bars .bullish ∧ limit bars .bearish ≤ b.low :=
  ⟨LawfulScalar.le_of_not_lt (isFinite_limit hfinite .bullish) (hfinite b hb .bullish)
      (of_decide_eq_false (not_beyond_limit hfinite .bullish hb)),
    LawfulScalar.le_of_not_lt (hfinite b hb .bearish) (isFinite_limit hfinite .bearish)
      (of_decide_eq_false (not_beyond_limit hfinite .bearish hb))⟩

theorem limit_eq_or_exists (d : Direction) :
    limit bars d = d.farthest ∨ ∃ b ∈ bars, b.extreme d = limit bars d :=
  (List.mem_cons.1 (firstExtreme_limit hfinite d).mem).imp_right List.mem_map.1

theorem exists_extreme_eq_limit (hwidth : ¬limit bars .bullish ≤ limit bars .bearish)
    (d : Direction) : ∃ b ∈ bars, b.extreme d = limit bars d := by
  -- nothing lies beyond the start of the other search, so a limit left at its start leaves no width
  refine (limit_eq_or_exists hfinite d).resolve_left fun hstart => hwidth ?_
  cases d with
  | bullish =>
    rw [hstart]
    exact Floating.neg_largest_le (isFinite_limit hfinite .bearish)
  | bearish =>
    rw [hstart]
    exact Floating.le_largest (isFinite_limit hfinite .bullish)

theorem limit_le_iff : limit bars .bullish ≤ limit bars .bearish ↔ Flat bars := by
  constructor
  · intro hle a ha b hb
    refine LawfulScalar.le_of_not_lt (hfinite b hb .bearish) (hfinite a ha .bullish) fun hlt => ?_
    have habove := LawfulScalar.lt_of_lt_of_le hlt (within_limits hfinite ha).1
    have hbelow := LawfulScalar.lt_of_lt_of_le habove hle
    exact LawfulScalar.lt_irrefl _ (LawfulScalar.lt_of_lt_of_le hbelow (within_limits hfinite hb).2)
  · intro hflat
    by_contra hwidth
    obtain ⟨a, ha, hhigh⟩ := exists_extreme_eq_limit hfinite hwidth .bullish
    obtain ⟨b, hb, hlow⟩ := exists_extreme_eq_limit hfinite hwidth .bearish
    rw [← hhigh, ← hlow] at hwidth
    exact hwidth (hflat a ha b hb)

end Base

/-! ## Detection -/

section Detect

variable {bars : List (Bar Float)} {settings : RangeSettings} {r : TradingRange Float}
  {b : Bar Float}

theorem not_leaves_iff (hr : ∀ d, Scalar.isFinite (r.extreme d) = true)
    (hb : ∀ d, Scalar.isFinite (b.extreme d) = true) :
    (!(decide (r.high < b.high) || decide (b.low < r.low))) = true ↔ r.Holds b := by
  rw [Bool.not_eq_true', Bool.or_eq_false_iff, decide_eq_false_iff_not, decide_eq_false_iff_not]
  exact and_congr (LawfulScalar.le_iff_not_lt (hb .bullish) (hr .bullish)).symm
    (LawfulScalar.le_iff_not_lt (hr .bearish) (hb .bearish)).symm

theorem deviatedUp_iff_lt {close high low : Float} :
    stateOf close high low = .deviatedUp ↔ high < close := by
  rw [stateOf]
  split
  · next h => exact iff_of_true rfl h
  · next h =>
    refine iff_of_false ?_ h
    split <;> nofun

theorem deviatedDown_iff_lt {close high low : Float} (hlt : low < high) :
    stateOf close high low = .deviatedDown ↔ close < low := by
  rw [stateOf]
  split
  · next h =>
    refine iff_of_false nofun fun hdown => ?_
    exact LawfulScalar.not_lt_of_lt (LawfulScalar.lt_trans hlt h) hdown
  · split
    · next h => exact iff_of_true rfl h
    · next h => exact iff_of_false nofun h

/-- How a range is found: so many bars join those that set its bounds. -/
structure Joined (init : List (Bar Float)) (latest : Bar Float) (settings : RangeSettings)
    (count : Nat) (r : TradingRange Float) : Prop where
  extreme : ∀ d, r.extreme d = limit (init.drop (init.length - settings.least)) d
  state : r.state = stateOf latest.close r.high r.low
  stopIndex : r.stopIndex = init.length - 1
  startIndex : r.startIndex = init.length - settings.least - count
  count_le : settings.least + count ≤ settings.most
  count_le_length : settings.least + count ≤ init.length
  holds : ∀ b ∈ (init.take (init.length - settings.least)).drop
    (init.length - settings.least - count), r.Holds b
  stopped : settings.least + count = settings.most ∨ settings.least + count = init.length ∨
    ∃ b, init[init.length - settings.least - count - 1]? = some b ∧ ¬r.Holds b

section Joined

variable {init : List (Bar Float)} {latest : Bar Float} {count : Nat}

theorem Joined.barCount_eq (h : Joined init latest settings count r) :
    r.barCount = settings.least + count := by
  have hpos : 1 ≤ settings.least := Nat.le_max_right ..
  have hfits := h.count_le_length
  rw [barCount, h.stopIndex, h.startIndex]
  omega

theorem Joined.window_eq (h : Joined init latest settings count r) :
    r.window (init ++ [latest]) =
      (init.take (init.length - settings.least)).drop (init.length - settings.least - count) ++
        init.drop (init.length - settings.least) := by
  have hpos : 1 ≤ settings.least := Nat.le_max_right ..
  have hfits := h.count_le_length
  have hsplit := List.drop_take_append_drop init (init.length - settings.least - count) count
  rw [Nat.sub_add_cancel (by omega)] at hsplit
  rw [window, h.stopIndex, h.startIndex, Nat.sub_add_cancel (by omega), List.take_left,
    List.drop_take, Nat.sub_sub_self (by omega), hsplit]

variable (hfinite : ∀ b ∈ init, ∀ d, Scalar.isFinite (b.extreme d) = true)
include hfinite

theorem exists_joined_of_wide (henough : settings.least ≤ init.length)
    (hwidth : ¬limit (init.drop (init.length - settings.least)) .bullish ≤
      limit (init.drop (init.length - settings.least)) .bearish) :
    ∃ r count, detect (init ++ [latest]) settings = .ok r ∧
      Joined init latest settings count r := by
  obtain ⟨r, hdetect, hhigh, hlow, -, hstate, hstop, hstart⟩ :=
    Indexed.exists_detect_eq_ok (show settings.least = max settings.leastBars 1 from rfl) rfl rfl
      henough latest hwidth
  rw [← hhigh, ← hlow] at hstart hstate
  have hextreme : ∀ d, r.extreme d = limit (init.drop (init.length - settings.least)) d
    | .bullish => hhigh
    | .bearish => hlow
  have hfinite_r : ∀ d, Scalar.isFinite (r.extreme d) = true := fun d =>
    (hextreme d).symm ▸ isFinite_limit (fun b hb => hfinite b (List.mem_of_mem_drop hb)) d
  have hlength : (init.take (init.length - settings.least)).length = init.length - settings.least :=
    List.length_take_of_le (Nat.sub_le ..)
  obtain ⟨count, hcount, hroom, hfits, hjoined, hstopped⟩ := exists_joined
    (fun b : Bar Float => !(decide (r.high < b.high) || decide (b.low < r.low)))
    (init.take (init.length - settings.least)) (settings.most - settings.least)
  rw [hlength] at hfits hjoined hstopped
  have hle : settings.least ≤ settings.most := Nat.le_max_right ..
  refine ⟨r, count, hdetect, hextreme, hstate, hstop, ?_, by omega, by omega, fun b hb => ?_, ?_⟩
  · exact hstart.trans (congrArg (init.length - settings.least - ·) hcount)
  · have hmem := List.mem_of_mem_take (List.mem_of_mem_drop hb)
    exact (not_leaves_iff hfinite_r (hfinite b hmem)).1 (hjoined b hb)
  · rcases hstopped with hfull | hall | ⟨b, hb, hleaves⟩
    · exact .inl (by omega)
    · exact .inr (.inl (by omega))
    · rw [List.getElem?_take, Option.ite_none_right_eq_some] at hb
      refine .inr (.inr ⟨b, hb.2, fun hholds => ?_⟩)
      rw [(not_leaves_iff hfinite_r (hfinite b (List.mem_of_getElem? hb.2))).2 hholds] at hleaves
      cases hleaves

theorem Joined.maximal (h : Joined init latest settings count r)
    (hwidth : ¬limit (init.drop (init.length - settings.least)) .bullish ≤
      limit (init.drop (init.length - settings.least)) .bearish)
    (hplaced : r.Placed (init ++ [latest])) : r.Maximal (init ++ [latest]) settings := by
  have hfinite_base : ∀ b ∈ init.drop (init.length - settings.least), ∀ d,
      Scalar.isFinite (b.extreme d) = true := fun b hb => hfinite b (List.mem_of_mem_drop hb)
  have hfits := h.count_le_length
  have hlt : r.low < r.high := by
    have hnot := (LawfulScalar.le_iff_not_lt (isFinite_limit hfinite_base .bullish)
      (isFinite_limit hfinite_base .bearish)).not.1 hwidth
    rw [← h.extreme, ← h.extreme] at hnot
    exact not_not.1 hnot
  refine ⟨hplaced, ?_, ?_, fun b hb => ?_, ?_, ?_, fun d => ?_, ?_, ?_, ?_⟩
  · rw [h.window_eq, h.barCount_eq, List.length_append, List.length_drop, List.length_take,
      List.length_drop]
    omega
  · rw [h.barCount_eq]
    exact ⟨Nat.le_add_right .., h.count_le⟩
  · rw [h.window_eq] at hb
    rcases List.mem_append.1 hb with hb | hb
    · exact h.holds b hb
    · have hwithin := within_limits hfinite_base hb
      rwa [← h.extreme .bullish, ← h.extreme .bearish] at hwithin
  · rw [base_concat, h.window_eq]
    exact List.suffix_append ..
  · rw [base_concat, List.length_drop]
    omega
  · rw [base_concat, h.extreme]
    exact exists_extreme_eq_limit hfinite_base hwidth d
  · rw [h.barCount_eq, h.startIndex]
    rcases h.stopped with hfull | hall | ⟨b, hb, hleaves⟩
    · exact .inr (.inl hfull)
    · exact .inl (by omega)
    · refine .inr (.inr ⟨b, ?_, hleaves⟩)
      rw [List.getElem?_append_left (List.getElem?_eq_some_iff.1 hb).1]
      exact hb
  · intro latest' hlatest
    rw [List.getLast?_concat, Option.mem_some_iff] at hlatest
    rw [h.state, deviatedUp_iff_lt, hlatest]
  · intro latest' hlatest
    rw [List.getLast?_concat, Option.mem_some_iff] at hlatest
    rw [h.state, deviatedDown_iff_lt hlt, hlatest]

end Joined

section Outcome

theorem detect_eq_short (hshort : bars.length < settings.least + 1) :
    detect bars settings = .error (.bars "range" (settings.least + 1) bars.length) := by
  obtain rfl | ⟨init, latest, rfl⟩ := bars.eq_nil_or_concat'
  · rfl
  · rw [List.length_append, List.length_singleton, Nat.add_lt_add_iff_right] at hshort
    rw [List.length_append, List.length_singleton]
    exact Indexed.detect_of_short rfl hshort

variable (hfinite : ∀ b ∈ bars, ∀ d, Scalar.isFinite (b.extreme d) = true)
include hfinite

theorem detect_eq_flat (henough : settings.least + 1 ≤ bars.length)
    (hflat : Flat (base bars settings.least)) : detect bars settings = .error (.range "range") := by
  obtain rfl | ⟨init, latest, rfl⟩ := bars.eq_nil_or_concat'
  · cases henough
  · rw [List.length_append, List.length_singleton, Nat.add_le_add_iff_right] at henough
    rw [base_concat] at hflat
    refine Indexed.detect_of_flat (show settings.least = max settings.leastBars 1 from rfl) rfl rfl
      henough ?_
    exact (limit_le_iff fun b hb =>
      hfinite b (List.mem_append_left _ (List.mem_of_mem_drop hb))).2 hflat

theorem exists_maximal (henough : settings.least + 1 ≤ bars.length)
    (hwide : ¬Flat (base bars settings.least)) :
    ∃ r, detect bars settings = .ok r ∧ r.Maximal bars settings := by
  obtain rfl | ⟨init, latest, rfl⟩ := bars.eq_nil_or_concat'
  · cases henough
  · have hfinite' : ∀ b ∈ init, ∀ d, Scalar.isFinite (b.extreme d) = true :=
      fun b hb => hfinite b (List.mem_append_left _ hb)
    rw [List.length_append, List.length_singleton, Nat.add_le_add_iff_right] at henough
    rw [base_concat, ← limit_le_iff fun b hb => hfinite' b (List.mem_of_mem_drop hb)] at hwide
    obtain ⟨r, count, hdetect, hjoined⟩ := exists_joined_of_wide hfinite' henough hwide
    exact ⟨r, hdetect, hjoined.maximal hfinite' hwide (placed_of_detect hdetect)⟩

theorem maximal_of_detect (h : detect bars settings = .ok r) : r.Maximal bars settings := by
  rcases Nat.lt_or_ge bars.length (settings.least + 1) with hshort | henough
  · rw [detect_eq_short hshort] at h
    cases h
  by_cases hflat : Flat (base bars settings.least)
  · rw [detect_eq_flat hfinite henough hflat] at h
    cases h
  · obtain ⟨found, hdetect, hmaximal⟩ := exists_maximal hfinite henough hflat
    rw [hdetect, Except.ok.injEq] at h
    exact h ▸ hmaximal

theorem Maximal.isFinite_extreme (h : r.Maximal bars settings) (d : Direction) :
    Scalar.isFinite (r.extreme d) = true := by
  obtain ⟨b, hb, hextreme⟩ := h.attained d
  rw [← hextreme]
  exact hfinite b (List.mem_of_mem_take (List.mem_of_mem_drop (h.base_suffix.subset hb))) d

end Outcome

end Detect

end TradingRange

end PriceAction
