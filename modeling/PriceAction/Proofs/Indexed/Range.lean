import PriceAction.Proofs.Indexed.Basic
import PriceAction.Proofs.Structure.Dated
import PriceAction.Structure.Volatility

/-!
# The active range by position

The range is cut out between two positions, and its start is moved back bar by bar. All positions
lie within the series, and the range is the same (`range?_eq`). So does the stretch between its
ends (`window?_eq`).
-/

namespace PriceAction.Indexed

variable {α : Type} [Scalar α]

/-- The start of a range that is moved back while the bar before it lies within the bounds. -/
def startFrom? (bars : List (Bar α)) (high low : α) (stop most : Nat) : (start : Nat) → Option Nat
  | 0 => some 0
  | start + 1 => do
    let next ← plus? stop 1
    let count ← minus? next (start + 1)
    if most ≤ count then some (start + 1)
    else do
      let earlier ← bars[start]?
      if decide (high < earlier.high) || decide (earlier.low < low) then some (start + 1)
      else startFrom? bars high low stop most start

/-- The range with the given bounds from `start` or earlier up to `stop`. -/
def rangeWithin? (bars : List (Bar α)) (high low : α) (last stop start most : Nat) :
    Option (TradingRange α) := do
  let first ← startFrom? bars high low stop most start
  let latest ← bars[last]?
  let oldest ← bars[first]?
  let newest ← bars[stop]?
  some
    { high := high
      low := low
      equilibrium := (high + low) / 2.0
      start := oldest.time
      stop := newest.time
      startIndex := first
      stopIndex := stop
      state := TradingRange.stateOf latest.close high low }

def range? (bars : List (Bar α)) (settings : RangeSettings) :
    Option (Except Shortfall (TradingRange α)) := do
  let least := max settings.leastBars 1
  let needed ← plus? least 1
  if bars.length < needed then some (.error (.bars "range" needed bars.length))
  else do
    let last ← minus? bars.length 1
    let stop ← minus? last 1
    let start ← minus? last least
    let next ← plus? stop 1
    let window ← slice? bars start next
    let high := Scalar.greatest (window.map (·.high))
    let low := Scalar.least (window.map (·.low))
    if high ≤ low then some (.error (.range "range"))
    else do
      let range ← rangeWithin? bars high low last stop start (max settings.mostBars least)
      some (.ok range)

/-- The bars of a range, cut out between its ends. -/
def window? (bars : List (Bar α)) (range : TradingRange α) : Option (List (Bar α)) := do
  let next ← plus? range.stopIndex 1
  slice? bars range.startIndex next

/-- How often the closes cross a level, the first one being read by itself. -/
def crossings? (bars : List (Bar α)) (level : α) : Option Nat :=
  if bars.length < 2 then some 0
  else do
    let first ← bars[0]?
    some (crossings (first :: bars.drop 1) level)

/-! ## Agreement -/

variable {bars : List (Bar α)}

theorem startFrom?_eq (hbars : bars.length ≤ 2 ^ 32) {high low : α} {stop most start : Nat}
    (hstop : stop < bars.length) (hstart : start ≤ stop + 1) :
    startFrom? bars high low stop most start =
      some (start - (((bars.take start).reverse.take (most - (stop + 1 - start))).takeWhile
        fun b => !(decide (high < b.high) || decide (b.low < low))).length) := by
  induction start with
  | zero => simp [startFrom?]
  | succ start ih =>
    have hlt : start < bars.length := by omega
    rw [startFrom?, plus?_eq (by omega)]
    simp only [Option.bind_eq_bind, Option.bind_some]
    rw [minus?_eq hstart, Option.bind_some, List.take_succ_eq_append_getElem hlt,
      List.reverse_append, List.reverse_singleton, List.singleton_append]
    by_cases hmost : most ≤ stop + 1 - (start + 1)
    · rw [if_pos hmost, Nat.sub_eq_zero_of_le hmost]
      rfl
    · have hroom : most - (stop + 1 - (start + 1)) = most - (stop + 1 - start) + 1 := by omega
      rw [if_neg hmost, List.getElem?_eq_getElem hlt, Option.bind_some, hroom, List.take_succ_cons,
        List.takeWhile_cons]
      split
      · next h =>
        rw [h]
        rfl
      · next h =>
        rw [Bool.not_eq_true] at h
        rw [ih (by omega), h, Bool.not_false, if_pos rfl, List.length_cons, Nat.add_sub_add_right]

section Detect

variable {init : List (Bar α)} {latest : Bar α} {settings : RangeSettings} {least : Nat}
  {high low : α}

omit [Scalar α] in
theorem reverse_take_reverse (init : List (Bar α)) (least : Nat) :
    (init.reverse.take least).reverse = init.drop (init.length - least) := by
  rw [List.take_reverse, List.reverse_reverse]

theorem detect_of_short (hleast : least = max settings.leastBars 1) (hshort : init.length < least) :
    TradingRange.detect (init ++ [latest]) settings =
      .error (.bars "range" (least + 1) (init.length + 1)) := by
  unfold TradingRange.detect
  simp only [List.reverse_append, List.reverse_singleton, List.singleton_append, ← hleast,
    List.length_append, List.length_reverse, List.length_singleton, if_pos hshort]
  split <;> rfl

variable (hleast : least = max settings.leastBars 1)
  (hhigh : high = Scalar.greatest ((init.drop (init.length - least)).map (·.high)))
  (hlow : low = Scalar.least ((init.drop (init.length - least)).map (·.low)))
  (henough : least ≤ init.length)

include hleast in
include henough in
omit [Scalar α] in
theorem take_reverse_ne_nil : init.reverse.take least ≠ [] := by
  rw [← List.length_pos_iff, List.length_take, List.length_reverse]
  omega

include hleast hhigh hlow henough

theorem detect_of_flat (hflat : high ≤ low) :
    TradingRange.detect (init ++ [latest]) settings = .error (.range "range") := by
  have hbase := take_reverse_ne_nil hleast henough
  unfold TradingRange.detect
  simp only [List.reverse_append, List.reverse_singleton, List.singleton_append, ← hleast,
    List.head?_eq_some_head hbase, List.getLast?_eq_some_getLast hbase, List.length_reverse,
    if_neg (Nat.not_lt.2 henough), ← List.map_reverse, reverse_take_reverse, ← hhigh, ← hlow,
    if_pos hflat]

theorem exists_detect_eq_ok (latest : Bar α) (hwidth : ¬high ≤ low) :
    ∃ r, TradingRange.detect (init ++ [latest]) settings = .ok r ∧ r.high = high ∧ r.low = low ∧
      r.equilibrium = (high + low) / 2.0 ∧ r.state = TradingRange.stateOf latest.close high low ∧
      r.stopIndex = init.length - 1 ∧
      r.startIndex = init.length - least - ((((init.take (init.length - least)).reverse).take
        (max settings.mostBars least - least)).takeWhile fun b =>
          !(decide (high < b.high) || decide (b.low < low))).length := by
  have hbase := take_reverse_ne_nil hleast henough
  unfold TradingRange.detect
  simp only [List.reverse_append, List.reverse_singleton, List.singleton_append, ← hleast,
    List.head?_eq_some_head hbase, List.getLast?_eq_some_getLast hbase, List.length_reverse,
    if_neg (Nat.not_lt.2 henough), ← List.map_reverse, reverse_take_reverse, ← hhigh, ← hlow,
    if_neg hwidth]
  refine ⟨_, rfl, rfl, rfl, rfl, rfl, ?_, ?_⟩
  · simp only [List.length_append, List.length_singleton]
    omega
  · simp only [List.length_append, List.length_singleton]
    rw [List.drop_reverse]
    omega

theorem rangeWithin?_eq (hbars : (init ++ [latest]).length ≤ 2 ^ 32) (hwidth : ¬high ≤ low) :
    ∃ r, rangeWithin? (init ++ [latest]) high low init.length (init.length - 1)
        (init.length - least) (max settings.mostBars least) = some r ∧
      TradingRange.detect (init ++ [latest]) settings = .ok r := by
  obtain ⟨r, hdetect, hhigh', hlow', hmid, hstate, hstop, hstart⟩ :=
    exists_detect_eq_ok hleast hhigh hlow henough latest hwidth
  have hplaced := TradingRange.placed_of_detect hdetect
  obtain ⟨oldest, holdest, holdest_time⟩ := hplaced.start
  obtain ⟨newest, hnewest, hnewest_time⟩ := hplaced.stop
  have hlength : (init ++ [latest]).length = init.length + 1 := List.length_append
  have hearlier : (init ++ [latest]).take (init.length - least) = init.take (init.length - least) :=
    List.take_append_of_le_length (Nat.sub_le ..)
  have hcount : init.length - 1 + 1 - (init.length - least) = least := by omega
  refine ⟨r, ?_, hdetect⟩
  rw [rangeWithin?, startFrom?_eq hbars (by omega) (by omega), hearlier, hcount, ← hstart, ← hstop]
  simp only [Option.bind_eq_bind, Option.bind_some, List.getElem?_concat_length, holdest, hnewest,
    holdest_time, hnewest_time]
  rw [← hstate, ← hmid, ← hhigh', ← hlow']

end Detect

theorem range?_eq (hbars : bars.length ≤ 2 ^ 32) (settings : RangeSettings) :
    range? bars settings = TradingRange.detect? bars settings := by
  obtain ⟨least, hleast_eq⟩ : ∃ least, least = max settings.leastBars 1 := ⟨_, rfl⟩
  rw [range?, TradingRange.detect?, pow2_word, ← hleast_eq]
  simp only [Option.bind_eq_bind]
  by_cases hcount : least + 1 < 2 ^ 64
  swap
  · rw [if_neg hcount, plus?_eq_none (by omega)]
    rfl
  rw [if_pos hcount, plus?_eq hcount, Option.bind_some]
  obtain rfl | ⟨init, latest, rfl⟩ := bars.eq_nil_or_concat'
  · rw [if_pos (by simp), hleast_eq]
    rfl
  · have hlength : (init ++ [latest]).length = init.length + 1 := List.length_append
    by_cases henough : least ≤ init.length
    · rw [if_neg (by omega), minus?_eq (by omega), Option.bind_some, minus?_eq (by omega),
        Option.bind_some, minus?_eq (by omega), Option.bind_some, plus?_eq (by omega),
        Option.bind_some, slice?_eq (by omega) (by omega), Option.bind_some, hlength,
        Nat.add_sub_cancel, Nat.sub_add_cancel (by omega), List.take_left]
      split
      · next hflat => rw [detect_of_flat hleast_eq rfl rfl henough hflat]
      · next hwidth =>
        obtain ⟨r, hr, hdetect⟩ := rangeWithin?_eq hleast_eq rfl rfl henough hbars hwidth
        rw [hr, hdetect]
        rfl
    · rw [if_pos (by omega), detect_of_short hleast_eq (Nat.not_le.1 henough), hlength]

omit [Scalar α] in
theorem window?_eq (hbars : bars.length ≤ 2 ^ 32) {range : TradingRange α}
    (h : range.Placed bars) : window? bars range = some (range.window bars) := by
  have hle := h.startIndex_le
  have heq := h.stopIndex_eq
  rw [window?, plus?_eq (by omega)]
  exact slice?_eq (by omega) (by omega)

theorem crossings?_eq (bars : List (Bar α)) (level : α) :
    crossings? bars level = some (crossings bars level) := by
  match bars with
  | [] => rfl
  | [b] => rfl
  | a :: b :: rest => rfl

end PriceAction.Indexed
