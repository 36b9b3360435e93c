import Mathlib.Data.List.Basic
import Mathlib.Data.List.Induction
import Mathlib.Data.List.TakeWhile
import PriceAction.Calendar.Text

/-!
# The text of an instant tells it apart

Dates are recovered from their days (`CivilDate.toDays_ofDays`), numbers from their padded digits
(`Decimal.padded_injective`), and so instants from the text in names (`Instant.offsetText_injective`).
A leap second is written as second sixty, so this holds of instants whose leap seconds end a
minute (`Instant.IsRegular`), as all that are read from texts do.
-/

namespace PriceAction

/-! ## Dates -/

namespace CivilDate

/-- The year of an era that holds a day of the era. -/
def yearOf (day : Nat) : Nat :=
  (day - day / 1460 + day / 36524 - day / 146096) / 365

/-- The days of an era before one of its years. -/
def daysBefore (year : Nat) : Nat :=
  365 * year + year / 4 - year / 100

theorem yearOf_le_succ (day : Nat) : yearOf day ≤ yearOf (day + 1) := by
  unfold yearOf
  apply Nat.div_le_div_right
  omega

theorem yearOf_mono {day later : Nat} (h : day ≤ later) : yearOf day ≤ yearOf later := by
  induction h with
  | refl => exact Nat.le_refl _
  | step _ ih => exact Nat.le_trans ih (yearOf_le_succ _)

theorem yearOf_bounds : ∀ year < 400, yearOf (daysBefore year) = year ∧
    yearOf (daysBefore (year + 1) - 1) = year := by
  decide +kernel

/-- A day lies between the first and the last day of its year. -/
theorem daysBefore_yearOf {day : Nat} (h : day < 146097) :
    yearOf day < 400 ∧ daysBefore (yearOf day) ≤ day ∧ day ≤ daysBefore (yearOf day) + 365 := by
  have hlast : yearOf 146096 = 399 := rfl
  have hyear : yearOf day < 400 := by
    have := yearOf_mono (Nat.le_of_lt_succ h)
    omega
  refine ⟨hyear, ?_, ?_⟩
  · apply Nat.le_of_not_lt
    intro hlt
    cases hy : yearOf day with
    | zero => rw [hy] at hlt; exact absurd hlt (Nat.not_lt_zero _)
    | succ year =>
      rw [hy] at hlt hyear
      have hbefore := (yearOf_bounds year (by omega)).2
      have := yearOf_mono (Nat.le_sub_one_of_lt hlt)
      omega
  · apply Nat.le_of_not_lt
    intro hlt
    by_cases hy : yearOf day + 1 < 400
    · have hnext := (yearOf_bounds (yearOf day + 1) hy).1
      have hle : daysBefore (yearOf day + 1) ≤ day := by
        unfold daysBefore at hlt ⊢
        omega
      have := yearOf_mono hle
      omega
    · have hy : yearOf day = 399 := by omega
      rw [hy] at hlt
      have : daysBefore 399 = 145731 := rfl
      omega

theorem toDays_ofDays (days : Int) : (ofDays days).toDays = days := by
  unfold ofDays
  extract_lets shifted era dayOfEra yearOfEra dayOfYear shiftedMonth month year
  have hyear : yearOfEra < 400 := (daysBefore_yearOf (by omega)).1
  have hfirst : 365 * yearOfEra + yearOfEra / 4 - yearOfEra / 100 ≤ dayOfEra :=
    (daysBefore_yearOf (by omega)).2.1
  have hlast : dayOfEra ≤ 365 * yearOfEra + yearOfEra / 4 - yearOfEra / 100 + 365 :=
    (daysBefore_yearOf (by omega)).2.2
  have hdayOfYear : dayOfYear = dayOfEra - (365 * yearOfEra + yearOfEra / 4 - yearOfEra / 100) := rfl
  have hshifted : shiftedMonth = (5 * dayOfYear + 2) / 153 := rfl
  have hmonth : month = if shiftedMonth < 10 then shiftedMonth + 3 else shiftedMonth - 9 := rfl
  have hyearEq : year = yearOfEra + era * 400 := rfl
  have hdays : days = era * 146097 + dayOfEra - 719468 := by omega
  clear_value yearOfEra dayOfYear shiftedMonth month year dayOfEra era
  have hback : (month + 9) % 12 = shiftedMonth := by
    rw [hmonth]
    split <;> omega
  have hyears : (if month ≤ 2 then (if month ≤ 2 then year + 1 else year) - 1
      else (if month ≤ 2 then year + 1 else year)) = year := by
    split <;> omega
  unfold toDays
  dsimp only
  rw [hyears, hback, hyearEq]
  omega

theorem ofDays_lt (days : Int) : (ofDays days).month < 100 ∧ (ofDays days).day < 100 := by
  unfold ofDays
  extract_lets shifted era dayOfEra yearOfEra dayOfYear shiftedMonth month year
  have hshifted : shiftedMonth = (5 * dayOfYear + 2) / 153 := rfl
  have hmonth : month = if shiftedMonth < 10 then shiftedMonth + 3 else shiftedMonth - 9 := rfl
  have hlast : dayOfYear ≤ 365 := by
    have hera : dayOfEra < 146097 := by omega
    have hstep := (daysBefore_yearOf hera).2.2
    show dayOfEra - daysBefore (yearOf dayOfEra) ≤ 365
    omega
  clear_value dayOfYear shiftedMonth month
  constructor
  · show month < 100
    rw [hmonth]
    split <;> omega
  · show dayOfYear - (153 * shiftedMonth + 2) / 5 + 1 < 100
    omega

end CivilDate

/-! ## Numbers -/

namespace Decimal

theorem toList_pushn (s : String) (c : Char) (n : Nat) :
    (s.pushn c n).toList = s.toList ++ List.replicate n c := by
  rw [String.pushn_eq_repeat_push]
  induction n with
  | zero => simp [Nat.repeat]
  | succ n ih => simp [Nat.repeat, ih, List.replicate_succ']

theorem toList_padded (width n : Nat) :
    (padded width n).toList =
      List.replicate (width - (Nat.toDigits 10 n).length) '0' ++ Nat.toDigits 10 n := by
  rw [padded]
  simp [toList_pushn, Nat.toString_eq_repr, ← String.length_toList]

theorem ofDigitChars_padded (width n : Nat) :
    Nat.ofDigitChars 10 (padded width n).toList 0 = n := by
  rw [toList_padded, Nat.ofDigitChars_append, Nat.ofDigitChars_replicate_zero]
  simp [Nat.ofDigitChars_ten_toDigits]

theorem padded_injective {width width' m n : Nat} (h : padded width m = padded width' n) : m = n := by
  rw [← ofDigitChars_padded width m, h, ofDigitChars_padded]

theorem length_padded {width n : Nat} (hwidth : 0 < width) (h : n < pow10 width) :
    (padded width n).toList.length = width := by
  rw [toList_padded, List.length_append, List.length_replicate]
  have := (Nat.length_toDigits_le_iff (b := 10) (n := n) (k := width) (by omega) hwidth).2 h
  omega

theorem isDigit_of_mem_padded {width n : Nat} {c : Char} (h : c ∈ (padded width n).toList) :
    c.isDigit = true := by
  rw [toList_padded, List.mem_append] at h
  rcases h with h | h
  · rw [List.eq_of_mem_replicate h]
    rfl
  · exact Nat.isDigit_of_mem_toDigits (by omega) (by omega) h

end Decimal

/-! ## Instants -/

namespace Instant

/-- Whether the instant is one of the calendar's: a leap second ends a minute. -/
def IsRegular (t : Instant) : Prop :=
  t.nanos < pow10 9 ∨ (t.nanos < 2 * pow10 9 ∧ t.seconds % 60 = 59)

instance (t : Instant) : Decidable t.IsRegular :=
  inferInstanceAs (Decidable (_ ∨ _))

/-! ### Years and dates -/

/-- The sign of a year that is written with one. -/
def signText (year : Int) : String := if year < 0 then "-" else "+"

theorem toList_signText (year : Int) :
    (signText year).toList = if year < 0 then ['-'] else ['+'] := by
  rw [signText]
  split <;> rfl

theorem signed_ne_padded (year : Int) (n m : Nat) :
    signText year ++ Decimal.padded 4 n ≠ Decimal.padded 4 m := by
  intro heq
  have hdigits : ∀ c ∈ (signText year ++ Decimal.padded 4 n).toList, c.isDigit = true := by
    rw [heq]
    exact fun c hc => Decimal.isDigit_of_mem_padded hc
  rw [String.toList_append, toList_signText] at hdigits
  split at hdigits
  · exact absurd (hdigits '-' (by simp)) (by decide)
  · exact absurd (hdigits '+' (by simp)) (by decide)

theorem yearText_injective {year year' : Int} (h : yearText year = yearText year') :
    year = year' := by
  rw [yearText, yearText, ← signText, ← signText] at h
  split at h <;> split at h
  · have := Decimal.padded_injective h
    omega
  · exact absurd h.symm (signed_ne_padded _ _ _)
  · exact absurd h (signed_ne_padded _ _ _)
  · have hlists := congrArg String.toList h
    rw [String.toList_append, String.toList_append, toList_signText, toList_signText] at hlists
    have hlength : (if year < 0 then ['-'] else ['+']).length =
        (if year' < 0 then ['-'] else ['+']).length := by
      split <;> split <;> rfl
    obtain ⟨hsign, habs⟩ := List.append_inj hlists hlength
    have hsame : year < 0 ↔ year' < 0 := by
      by_cases hneg : year < 0 <;> by_cases hneg' : year' < 0 <;> simp [hneg, hneg'] at hsign ⊢
    have := Decimal.padded_injective (String.toList_injective habs)
    omega

theorem toList_dateText (t : Instant) :
    t.dateText.toList = (yearText (CivilDate.ofDays (t.seconds / 86400)).year).toList ++
      '-' :: (Decimal.padded 2 (CivilDate.ofDays (t.seconds / 86400)).month).toList ++
      '-' :: (Decimal.padded 2 (CivilDate.ofDays (t.seconds / 86400)).day).toList := by
  simp [dateText]

theorem not_mem_dateText (t : Instant) : 'T' ∉ t.dateText.toList := by
  have hdigits (n : Nat) (width : Nat) : 'T' ∉ (Decimal.padded width n).toList := by
    intro h
    exact absurd (Decimal.isDigit_of_mem_padded h) (by decide)
  have hyear (year : Int) : 'T' ∉ (yearText year).toList := by
    rw [yearText, ← signText]
    split
    · exact hdigits _ _
    · rw [String.toList_append, toList_signText]
      split <;> simp [hdigits]
  simp [toList_dateText, hdigits, hyear]

theorem days_eq_of_dateText {a b : Instant} (h : a.dateText = b.dateText) :
    a.seconds / 86400 = b.seconds / 86400 := by
  have hlists := congrArg String.toList h
  rw [toList_dateText, toList_dateText] at hlists
  have hlength (n : Nat) (hn : n < 100) : (Decimal.padded 2 n).toList.length = 2 :=
    Decimal.length_padded (by omega) hn
  have hbounds := CivilDate.ofDays_lt (a.seconds / 86400)
  have hbounds' := CivilDate.ofDays_lt (b.seconds / 86400)
  obtain ⟨hrest, hday⟩ := List.append_inj' hlists (by
    rw [List.length_cons, List.length_cons, hlength _ hbounds.2, hlength _ hbounds'.2])
  obtain ⟨hyear, hmonth⟩ := List.append_inj' hrest (by
    rw [List.length_cons, List.length_cons, hlength _ hbounds.1, hlength _ hbounds'.1])
  have hdate : CivilDate.ofDays (a.seconds / 86400) = CivilDate.ofDays (b.seconds / 86400) := by
    have hyear := yearText_injective (String.toList_injective hyear)
    have hmonth := Decimal.padded_injective (String.toList_injective (List.tail_eq_of_cons_eq hmonth))
    have hday := Decimal.padded_injective (String.toList_injective (List.tail_eq_of_cons_eq hday))
    generalize CivilDate.ofDays (a.seconds / 86400) = c at *
    generalize CivilDate.ofDays (b.seconds / 86400) = c' at *
    cases c
    cases c'
    simp_all
  rw [← CivilDate.toDays_ofDays (a.seconds / 86400), hdate, CivilDate.toDays_ofDays]

/-! ### Times of day -/

theorem fractionText_cases {nanos : Nat} (h : nanos < pow10 9) :
    (nanos = 0 ∧ fractionText nanos = "") ∨
      ∃ k digits, 0 < k ∧ k ≤ 9 ∧ digits < pow10 k ∧ nanos = digits * pow10 (9 - k) ∧
        fractionText nanos = "." ++ Decimal.padded k digits := by
  have hnine : pow10 9 = 1000000000 := rfl
  rw [fractionText]
  split
  · next hzero => exact .inl ⟨hzero, rfl⟩
  · refine .inr ?_
    split
    · refine ⟨3, nanos / 1000000, by omega, by omega, ?_, ?_, rfl⟩
      · show nanos / 1000000 < 1000
        omega
      · show nanos = nanos / 1000000 * 1000000
        omega
    · split
      · refine ⟨6, nanos / 1000, by omega, by omega, ?_, ?_, rfl⟩
        · show nanos / 1000 < 1000000
          omega
        · show nanos = nanos / 1000 * 1000
          omega
      · exact ⟨9, nanos, by omega, by omega, h, (Nat.mul_one nanos).symm, rfl⟩

theorem fractionText_injective {m n : Nat} (hm : m < pow10 9) (hn : n < pow10 9)
    (h : fractionText m = fractionText n) : m = n := by
  have hlists := congrArg String.toList h
  rcases fractionText_cases hm with ⟨rfl, hm⟩ | ⟨k, x, hk, -, hx, rfl, hm⟩ <;>
    rcases fractionText_cases hn with ⟨rfl, hn⟩ | ⟨k', y, hk', -, hy, rfl, hn⟩
  · rfl
  · simp [hm, hn] at hlists
  · simp [hm, hn] at hlists
  · rw [hm, hn, String.toList_append, String.toList_append] at hlists
    have hdigits := List.append_cancel_left hlists
    have hlength := congrArg List.length hdigits
    rw [Decimal.length_padded hk hx, Decimal.length_padded hk' hy] at hlength
    have := Decimal.padded_injective (String.toList_injective hdigits)
    rw [this, hlength]

theorem toList_timeText (t : Instant) :
    t.timeText.toList = (Decimal.padded 2 ((t.seconds % 86400).toNat / 3600)).toList ++
      (':' :: (Decimal.padded 2 ((t.seconds % 86400).toNat / 60 % 60)).toList ++
      (':' :: (Decimal.padded 2 ((t.seconds % 86400).toNat % 60 + t.nanos / pow10 9)).toList ++
      (fractionText (t.nanos % pow10 9)).toList)) := by
  simp [timeText]

theorem not_mem_timeText (t : Instant) : 'T' ∉ t.timeText.toList := by
  have hdigits (n : Nat) (width : Nat) : 'T' ∉ (Decimal.padded width n).toList := by
    intro h
    exact absurd (Decimal.isDigit_of_mem_padded h) (by decide)
  have hfraction : 'T' ∉ (fractionText (t.nanos % pow10 9)).toList := by
    rcases fractionText_cases (Nat.mod_lt t.nanos (by decide)) with ⟨-, h⟩ | ⟨k, x, -, -, -, -, h⟩
    · simp [h]
    · simp [h, hdigits]
  simp [toList_timeText, hdigits, hfraction]

/-- The second of the day and the nanoseconds are read off the time. -/
theorem eq_of_timeText {a b : Instant} (ha : a.IsRegular) (hb : b.IsRegular)
    (h : a.timeText = b.timeText) :
    a.seconds % 86400 = b.seconds % 86400 ∧ a.nanos = b.nanos := by
  have hnine : pow10 9 = 1000000000 := rfl
  have hlists := congrArg String.toList h
  rw [toList_timeText, toList_timeText] at hlists
  unfold IsRegular at ha hb
  rw [hnine] at ha hb hlists
  have hlength (n : Nat) (hn : n < 100) : (Decimal.padded 2 n).toList.length = 2 :=
    Decimal.length_padded (by omega) hn
  obtain ⟨hhour, hlists⟩ := List.append_inj hlists (by
    rw [hlength _ (by omega), hlength _ (by omega)])
  obtain ⟨hminute, hlists⟩ := List.append_inj hlists (by
    rw [List.length_cons, List.length_cons, hlength _ (by omega), hlength _ (by omega)])
  obtain ⟨hsecond, hfraction⟩ := List.append_inj hlists (by
    rw [List.length_cons, List.length_cons, hlength _ (by omega), hlength _ (by omega)])
  have hhour := Decimal.padded_injective (String.toList_injective hhour)
  have hminute := Decimal.padded_injective
    (String.toList_injective (List.tail_eq_of_cons_eq hminute))
  have hsecond := Decimal.padded_injective
    (String.toList_injective (List.tail_eq_of_cons_eq hsecond))
  have hfraction : a.nanos % 1000000000 = b.nanos % 1000000000 :=
    fractionText_injective (Nat.mod_lt _ (by decide)) (Nat.mod_lt _ (by decide))
      (String.toList_injective hfraction)
  omega

theorem offsetText_injective {a b : Instant} (ha : a.IsRegular) (hb : b.IsRegular)
    (h : a.offsetText = b.offsetText) : a = b := by
  have hlists := congrArg String.toList h
  simp only [offsetText, String.toList_append] at hlists
  have hlists := List.append_cancel_right hlists
  rw [show "T".toList = ['T'] from rfl, List.append_assoc, List.append_assoc, List.singleton_append,
    List.singleton_append, List.append_cons_inj_of_notMem (not_mem_dateText a)
      (not_mem_timeText a)] at hlists
  obtain ⟨hdate, -, htime⟩ := hlists
  have hdays := days_eq_of_dateText (String.toList_injective hdate)
  obtain ⟨hseconds, hnanos⟩ := eq_of_timeText ha hb (String.toList_injective htime)
  cases a
  cases b
  rw [mk.injEq]
  dsimp only at *
  omega

/-! ### Reading -/

theorem number_lt {digits : List Char} (h : ∀ c ∈ digits, Text.isDigit c = true) :
    Text.number digits < pow10 digits.length := by
  induction digits using List.reverseRecOn with
  | nil => decide
  | append_singleton rest c ih =>
    have hrest := ih fun c hc => h c (List.mem_append_left _ hc)
    have hdigit := h c (by simp)
    simp only [Text.isDigit, Bool.and_eq_true, decide_eq_true_eq, Char.le_def] at hdigit
    have hvalue : Text.digitValue c ≤ 9 := by
      have hle : c.toNat ≤ 57 := hdigit.2
      show c.toNat - 48 ≤ 9
      omega
    have hstep : Text.number (rest ++ [c]) = 10 * Text.number rest + Text.digitValue c := by
      rw [Text.number, List.foldl_concat, ← Text.number]
    have hpow : pow10 (rest ++ [c]).length = pow10 rest.length * 10 := by
      rw [List.length_append]
      exact Nat.pow_succ ..
    omega

theorem fraction?_lt {cs rest : List Char} {nanos : Nat} (h : fraction? cs = some (nanos, rest)) :
    nanos < pow10 9 := by
  unfold fraction? at h
  split at h
  · next digits =>
    extract_lets taken kept at h
    obtain ⟨-, h⟩ := Option.ite_none_left_eq_some.1 h
    cases h
    have hlength : kept.length ≤ 9 := List.length_take_le ..
    have hdigits : ∀ c ∈ kept, Text.isDigit c = true := fun c hc =>
      List.mem_takeWhile_imp (List.mem_of_mem_take hc)
    calc Text.number kept * pow10 (9 - kept.length)
        < pow10 kept.length * pow10 (9 - kept.length) :=
          Nat.mul_lt_mul_of_pos_right (number_lt hdigits) (Nat.pow_pos (by decide))
      _ = pow10 9 := by
        show 10 ^ kept.length * 10 ^ (9 - kept.length) = 10 ^ 9
        rw [← Nat.pow_add, Nat.add_sub_cancel' hlength]
  · cases h
    decide

theorem of_time? {cs rest : List Char} {inDay nanos : Nat}
    (h : time? cs = some (inDay, nanos, rest)) :
    nanos < pow10 9 ∨ (nanos < 2 * pow10 9 ∧ inDay % 60 = 59) := by
  have hnine : pow10 9 = 1000000000 := rfl
  simp only [time?, Option.bind_eq_bind, Option.bind_eq_some_iff] at h
  obtain ⟨hour, -, rest₁, -, minute, -, rest₂, -, second, -, fraction, hfraction, h⟩ := h
  have hlt := fraction?_lt hfraction
  split at h
  · next hbounds =>
    split at h
    · cases h
      exact .inr ⟨by omega, by omega⟩
    · cases h
      exact .inl hlt
  · cases h

theorem offset?_mod {cs rest : List Char} {offset : Int} (h : offset? cs = some (offset, rest)) :
    offset % 60 = 0 := by
  unfold offset? at h
  extract_lets signed at h
  have hsigned : ∀ sign cs, signed sign cs = some (offset, rest) → offset % 60 = 0 := by
    intro sign cs h
    simp only [signed, Option.bind_eq_bind, Option.bind_eq_some_iff] at h
    obtain ⟨hours, -, minutes, -, h⟩ := h
    obtain ⟨-, h⟩ := Option.ite_none_right_eq_some.1 h
    cases h
    rw [show (hours.1 : Int) * 3600 + minutes.1 * 60 = 60 * (hours.1 * 60 + minutes.1) by omega,
      Int.mul_left_comm, Int.mul_emod_right]
  split at h
  · cases h
    rfl
  · cases h
    rfl
  · exact hsigned _ _ h
  · exact hsigned _ _ h
  · exact hsigned _ _ h
  · obtain ⟨-, h⟩ := Option.ite_none_right_eq_some.1 h
    cases h
    rfl
  · cases h

theorem isRegular_of_ofText? {s : String} {t : Instant} (h : ofText? s = some t) : t.IsRegular := by
  simp only [ofText?, Option.bind_eq_bind, Option.bind_eq_some_iff] at h
  obtain ⟨date, -, time, htime, offset, hoffset, h⟩ := h
  obtain ⟨-, h⟩ := Option.ite_none_right_eq_some.1 h
  cases h
  have hmod := offset?_mod hoffset
  rcases of_time? htime with hlt | ⟨hlt, hsecond⟩
  · exact .inl hlt
  · refine .inr ⟨hlt, ?_⟩
    dsimp only
    omega

end Instant

end PriceAction
