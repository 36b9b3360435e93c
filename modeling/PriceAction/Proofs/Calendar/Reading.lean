import PriceAction.Proofs.Calendar.Text

/-!
# The text of an instant is read back

Every reader takes what its writer left and nothing after it: numbers, years and fractions first,
then the date and the time of day. So the instants that are read back from their own text are the
regular ones within the years of the calendar (`Instant.ofText?_text_iff`).
-/

namespace PriceAction

/-! ## Valid dates -/

namespace CivilDate

/-- The day of a year that begins with March. -/
def ofMarch (year : Int) (day : Nat) : CivilDate :=
  let shiftedMonth := (5 * day + 2) / 153
  let month := if shiftedMonth < 10 then shiftedMonth + 3 else shiftedMonth - 9
  ⟨if month ≤ 2 then year + 1 else year, month, day - (153 * shiftedMonth + 2) / 5 + 1⟩

theorem isLeap_add (year era : Int) : isLeap (year + era * 400) = isLeap year := by
  have h (m : Int) (hm : 400 % m = 0) : (year + era * 400) % m = year % m := by
    obtain ⟨k, hk⟩ := Int.dvd_of_emod_eq_zero hm
    rw [hk, ← Int.mul_assoc, Int.mul_right_comm, Int.add_mul_emod_self_right]
  simp only [isLeap, h 4 rfl, h 100 rfl, h 400 rfl]

theorem daysBefore_common : ∀ year : Nat, year < 399 → isLeap (year + 1) = false →
    daysBefore (year + 1) = daysBefore year + 365 := by
  decide +kernel

theorem isLeap_of_yearOf {day : Nat} (h : day < 146097)
    (hlast : day = daysBefore (yearOf day) + 365) : isLeap (yearOf day + 1) = true := by
  by_cases hyear : yearOf day = 399
  · rw [hyear]
    rfl
  · have hlt : yearOf day < 399 := by
      have := (daysBefore_yearOf h).1
      omega
    refine Bool.of_not_eq_false fun hcommon => ?_
    have hnext := daysBefore_common (yearOf day) hlt hcommon
    have hstart := (yearOf_bounds (yearOf day + 1) (by omega)).1
    rw [hnext, ← hlast] at hstart
    omega

/-- A date is a day of a year that is counted from March, and only leap years have a last one. -/
theorem exists_ofMarch (days : Int) : ∃ (year : Int) (day : Nat), ofDays days = ofMarch year day ∧
    day ≤ 365 ∧ (day = 365 → isLeap (year + 1) = true) ∧
    days + 719468 = year / 400 * 146097 + year % 400 * 365 + year % 400 / 4 - year % 400 / 100 +
      day := by
  unfold ofDays
  extract_lets shifted era dayOfEra yearOfEra dayOfYear shiftedMonth month year
  have hera : dayOfEra < 146097 := by omega
  have hyear : yearOfEra < 400 := (daysBefore_yearOf hera).1
  have hfirst : daysBefore yearOfEra ≤ dayOfEra := (daysBefore_yearOf hera).2.1
  have hlast : dayOfEra ≤ daysBefore yearOfEra + 365 := (daysBefore_yearOf hera).2.2
  have hleap : dayOfEra = daysBefore yearOfEra + 365 → isLeap (yearOfEra + 1) = true :=
    isLeap_of_yearOf hera
  have hdayOfYear : dayOfYear = dayOfEra - daysBefore yearOfEra := rfl
  have hdays : days + 719468 = era * 146097 + dayOfEra := by omega
  have hyearEq : year = yearOfEra + era * 400 := rfl
  refine ⟨year, dayOfYear, rfl, by omega, fun hday => ?_, ?_⟩
  · rw [hyearEq, Int.add_right_comm, isLeap_add]
    exact hleap (by omega)
  · have hquotient : year / 400 = era := by omega
    have hremainder : year % 400 = yearOfEra := by omega
    rw [hquotient, hremainder, hdays]
    unfold daysBefore at hfirst hdayOfYear
    omega

theorem ofMarch_common : ∀ day < 365,
    let date := ofMarch 0 day
    1 ≤ date.month ∧ date.month ≤ 12 ∧ 1 ≤ date.day ∧
      date.day ≤ (if date.month = 2 then 28 else monthLength 0 date.month) := by
  decide +kernel

theorem isValid_ofMarch {year : Int} {day : Nat} (h : day ≤ 365)
    (hleap : day = 365 → isLeap (year + 1) = true) : (ofMarch year day).isValid = true := by
  by_cases hday : day = 365
  · subst hday
    have hlength : monthLength (year + 1) 2 = 29 := by simp [monthLength, hleap rfl]
    show (mk (year + 1) 2 29).isValid = true
    simp [isValid, hlength]
  · obtain ⟨hfirst, hlast, hpos, hle⟩ := ofMarch_common day (by omega)
    have hmonth : (ofMarch year day).month = (ofMarch 0 day).month := rfl
    have hdate : (ofMarch year day).day = (ofMarch 0 day).day := rfl
    have hlength : (if (ofMarch 0 day).month = 2 then 28 else monthLength 0 (ofMarch 0 day).month) ≤
        monthLength (ofMarch year day).year (ofMarch 0 day).month := by
      unfold monthLength
      split
      · split <;> omega
      · exact Nat.le_refl _
    simp only [isValid, Bool.and_eq_true, decide_eq_true_eq, hmonth, hdate]
    exact ⟨⟨⟨hfirst, hlast⟩, hpos⟩, Nat.le_trans hle hlength⟩

theorem isValid_ofDays (days : Int) : (ofDays days).isValid = true := by
  obtain ⟨year, day, hdate, hday, hleap, -⟩ := exists_ofMarch days
  rw [hdate]
  exact isValid_ofMarch hday hleap

theorem year_ofMarch (year : Int) {day : Nat} (h : day ≤ 365) :
    (ofMarch year day).year = if 306 ≤ day then year + 1 else year := by
  unfold ofMarch
  extract_lets shiftedMonth month
  have hmonth : month = if shiftedMonth < 10 then shiftedMonth + 3 else shiftedMonth - 9 := rfl
  have hshifted : shiftedMonth = (5 * day + 2) / 153 := rfl
  have hiff : month ≤ 2 ↔ 306 ≤ day := by
    rw [hmonth]
    split <;> omega
  simp only [hiff]

end CivilDate

theorem Instant.year_of_inCalendar {t : Instant} (h : t.inCalendar = true) :
    firstYear ≤ (CivilDate.ofDays (t.seconds / 86400)).year ∧
      (CivilDate.ofDays (t.seconds / 86400)).year ≤ lastYear := by
  have hfirst : (CivilDate.mk firstYear 1 1).toDays = -96465292 := by decide
  have hlast : (CivilDate.mk (lastYear + 1) 1 1).toDays = 95026237 := by decide
  simp only [inCalendar, Bool.and_eq_true, decide_eq_true_eq, hfirst, hlast] at h
  obtain ⟨year, day, hdate, hday, -, hdays⟩ := CivilDate.exists_ofMarch (t.seconds / 86400)
  have hbefore : year ≠ -262144 ∨ 306 ≤ day := by
    by_contra! hout
    obtain ⟨rfl, hday⟩ := hout
    omega
  have hafter : year ≠ 262142 ∨ day < 306 := by
    by_contra! hout
    obtain ⟨rfl, hday⟩ := hout
    omega
  rw [hdate, CivilDate.year_ofMarch year hday, firstYear, lastYear]
  split <;> omega

/-! ## Numbers -/

namespace Text

theorem isBlank_of_isDigit {c : Char} (h : isDigit c = true) : isBlank c = false := by
  simp only [isDigit, Bool.and_eq_true, decide_eq_true_eq, Char.le_def] at h
  have hfirst : 48 ≤ c.toNat := h.1
  have hlast : c.toNat ≤ 57 := h.2
  simp only [isBlank, Bool.or_eq_false_iff, Bool.and_eq_false_iff, decide_eq_false_iff_not]
  omega

theorem dropBlank_cons {c : Char} (h : isBlank c = false) (cs : List Char) :
    dropBlank (c :: cs) = c :: cs :=
  List.dropWhile_cons_of_neg (by simp [h])

end Text

namespace Decimal

open Text (isDigit number)

theorem isDigit_padded (width n : Nat) : ∀ c ∈ (padded width n).toList, isDigit c = true :=
  fun _ hc => isDigit_of_mem_padded hc

theorem number_padded (width n : Nat) : number (padded width n).toList = n :=
  ofDigitChars_padded width n

theorem padded_ne_nil (width n : Nat) : (padded width n).toList ≠ [] := by
  have := Nat.length_toDigits_pos (b := 10) (n := n)
  rw [toList_padded]
  exact List.append_ne_nil_of_right_ne_nil _ (List.ne_nil_of_length_pos this)

theorem takeWhile_padded {width n : Nat} {c : Char} (h : isDigit c = false) (rest : List Char) :
    ((padded width n).toList ++ c :: rest).takeWhile isDigit = (padded width n).toList := by
  rw [List.takeWhile_append_of_pos (isDigit_padded width n),
    List.takeWhile_cons_of_neg (by simp [h]), List.append_nil]

theorem dropBlank_padded (width n : Nat) (rest : List Char) :
    Text.dropBlank ((padded width n).toList ++ rest) = (padded width n).toList ++ rest := by
  obtain ⟨c, cs, hdigits⟩ := List.exists_cons_of_ne_nil (padded_ne_nil width n)
  have hc : isDigit c = true := isDigit_padded width n c (by simp [hdigits])
  rw [hdigits, List.cons_append, Text.dropBlank_cons (Text.isBlank_of_isDigit hc)]

end Decimal

namespace Instant

open Text (dropBlank isBlank isDigit number)

theorem digits?_padded {width n : Nat} (hwidth : 0 < width) (h : n < pow10 width)
    (rest : List Char) :
    digits? width ((Decimal.padded width n).toList ++ rest) = some (n, rest) := by
  have hlength := Decimal.length_padded hwidth h
  have htaken : (((Decimal.padded width n).toList ++ rest).take width).takeWhile isDigit =
      (Decimal.padded width n).toList := by
    rw [List.take_left' hlength, List.takeWhile_eq_self_iff.2 (Decimal.isDigit_padded _ _)]
  simp [digits?, Decimal.dropBlank_padded, htaken, Decimal.padded_ne_nil, Decimal.number_padded,
    -String.toList_eq_nil_iff]

theorem mark?_cons {c : Char} (h : isBlank c = false) (rest : List Char) :
    mark? c (c :: rest) = some rest := by
  simp [mark?, Text.dropBlank_cons h]

theorem digits?_two {n : Nat} (h : n < 100) (rest : List Char) :
    digits? 2 ((Decimal.padded 2 n).toList ++ rest) = some (n, rest) :=
  digits?_padded (by decide) h rest

/-- A year with a sign is as long as its digits go on. -/
theorem year?_yearText (year : Int) (rest : List Char) :
    year? ((yearText year).toList ++ '-' :: rest) = some (year, '-' :: rest) := by
  unfold year?
  extract_lets signed
  have hsigned (n : Nat) : signed ((Decimal.padded 4 n).toList ++ '-' :: rest) =
      some (n, '-' :: rest) := by
    simp only [signed, Decimal.takeWhile_padded (c := '-') rfl]
    rw [if_neg (by simp [Decimal.padded_ne_nil, -String.toList_eq_nil_iff]),
      Decimal.number_padded, List.drop_left]
  rw [yearText, ← signText]
  by_cases hyear : 0 ≤ year ∧ year ≤ 9999
  · rw [if_pos hyear]
    have hlt : year.toNat < pow10 4 := by
      show year.toNat < 10000
      omega
    have hread := digits?_padded (by decide) hlt ('-' :: rest)
    obtain ⟨c, cs, hdigits⟩ := List.exists_cons_of_ne_nil (Decimal.padded_ne_nil 4 year.toNat)
    have hc : isDigit c = true :=
      Decimal.isDigit_padded 4 year.toNat c (by simp [hdigits])
    rw [Decimal.dropBlank_padded]
    -- The first character is a digit and so no sign.
    split
    · next heq =>
      rw [hdigits] at heq
      cases heq
      exact absurd hc (by decide)
    · next heq =>
      rw [hdigits] at heq
      cases heq
      exact absurd hc (by decide)
    · simp only [hread, Option.map_some, Int.toNat_of_nonneg hyear.1]
  · rw [if_neg hyear, String.toList_append, toList_signText]
    by_cases hneg : year < 0
    · simp only [if_pos hneg, List.cons_append, List.nil_append,
        Text.dropBlank_cons (c := '-') rfl, hsigned, Option.map_some]
      rw [show -(year.natAbs : Int) = year by omega]
    · simp only [if_neg hneg, List.cons_append, List.nil_append,
        Text.dropBlank_cons (c := '+') rfl, hsigned, Option.map_some]
      rw [show (year.natAbs : Int) = year by omega]

theorem fraction?_fractionText {nanos : Nat} (h : nanos < pow10 9) (rest : List Char) :
    fraction? ((fractionText nanos).toList ++ 'Z' :: rest) = some (nanos, 'Z' :: rest) := by
  rcases fractionText_cases h with ⟨rfl, htext⟩ | ⟨k, digits, hk, hk9, hdigits, rfl, htext⟩
  · rw [htext]
    rfl
  · have hlength := Decimal.length_padded hk hdigits
    have hkept : (Decimal.padded k digits).toList.take 9 = (Decimal.padded k digits).toList :=
      List.take_of_length_le (by omega)
    rw [htext, String.toList_append]
    show fraction? ('.' :: ((Decimal.padded k digits).toList ++ 'Z' :: rest)) = _
    simp [fraction?, Decimal.takeWhile_padded (c := 'Z') rfl, hkept, hlength, Decimal.padded_ne_nil, Decimal.number_padded,
      -String.toList_eq_nil_iff]

/-! ## Instants -/

theorem date?_dateText {t : Instant} (h : t.inCalendar = true) (rest : List Char) :
    date? (t.dateText.toList ++ 'T' :: rest) =
      some (CivilDate.ofDays (t.seconds / 86400), rest) := by
  have hbounds := CivilDate.ofDays_lt (t.seconds / 86400)
  have hyear := year_of_inCalendar h
  have hvalid := CivilDate.isValid_ofDays (t.seconds / 86400)
  have hdash (rest : List Char) : mark? '-' ('-' :: rest) = some rest := mark?_cons rfl rest
  rw [toList_dateText]
  generalize CivilDate.ofDays (t.seconds / 86400) = date at *
  simp only [date?, List.append_assoc, List.cons_append, year?_yearText, hdash,
    digits?_two hbounds.1, digits?_two hbounds.2, Option.bind_eq_bind, Option.bind_some]
  simp [hvalid, hyear]

theorem time?_timeText {t : Instant} (h : t.IsRegular) (rest : List Char) :
    time? (t.timeText.toList ++ 'Z' :: rest) =
      some ((t.seconds % 86400).toNat, t.nanos, 'Z' :: rest) := by
  have hnine : pow10 9 = 1000000000 := rfl
  have hfraction := fraction?_fractionText (Nat.mod_lt t.nanos (by decide : 0 < pow10 9)) rest
  have hcolon (rest : List Char) : mark? ':' (':' :: rest) = some rest := mark?_cons rfl rest
  have hZ : dropBlank ('Z' :: rest) = 'Z' :: rest := Text.dropBlank_cons rfl rest
  unfold IsRegular at h
  rw [toList_timeText]
  have hday : (t.seconds % 86400).toNat < 86400 := by omega
  have hminute : (t.seconds % 86400).toNat % 60 = (t.seconds % 60).toNat := by omega
  generalize (t.seconds % 86400).toNat = inDay at *
  rw [hnine] at h hfraction ⊢
  have hhour : inDay / 3600 = inDay / 60 / 60 := (Nat.div_div_eq_div_mul inDay 60 60).symm
  have hsecond : inDay % 60 + t.nanos / 1000000000 ≤ 60 := by omega
  simp only [time?, List.append_assoc, List.cons_append, hcolon, hfraction, hZ, hnine,
    digits?_two (show inDay / 3600 < 100 by omega),
    digits?_two (show inDay / 60 % 60 < 100 by omega),
    digits?_two (show inDay % 60 + t.nanos / 1000000000 < 100 by omega),
    Option.bind_eq_bind, Option.bind_some]
  rw [if_pos ⟨by omega, by omega, hsecond⟩]
  split <;> rw [Option.some.injEq, Prod.mk.injEq, Prod.mk.injEq]
  · exact ⟨by omega, by omega, rfl⟩
  · exact ⟨by omega, by omega, rfl⟩

/-- Whether the instant is one of the calendar's. -/
def IsWritable (t : Instant) : Prop :=
  t.IsRegular ∧ t.inCalendar = true

instance (t : Instant) : Decidable t.IsWritable :=
  inferInstanceAs (Decidable (_ ∧ _))

theorem ofText?_text {t : Instant} (h : t.IsWritable) : ofText? t.text = some t := by
  obtain ⟨hregular, hin⟩ := h
  have htext : t.text.toList = t.dateText.toList ++ 'T' :: (t.timeText.toList ++ ['Z']) := by
    simp [text]
  have hoffset : offset? ['Z'] = some (0, []) := rfl
  have hseconds :
      t.seconds / 86400 * 86400 + ((t.seconds % 86400).toNat : Int) - 0 = t.seconds := by
    omega
  simp only [ofText?, htext, date?_dateText hin, time?_timeText hregular, hoffset,
    CivilDate.toDays_ofDays, hseconds, Option.bind_eq_bind, Option.bind_some]
  simp [hin, dropBlank]

theorem inCalendar_of_ofText? {s : String} {t : Instant} (h : ofText? s = some t) :
    t.inCalendar = true := by
  simp only [ofText?, Option.bind_eq_bind, Option.bind_eq_some_iff] at h
  obtain ⟨date, -, time, -, offset, -, h⟩ := h
  obtain ⟨hin, h⟩ := Option.ite_none_right_eq_some.1 h
  cases h
  exact (Bool.and_eq_true_iff.1 hin).2

/-- The instants that any text says are the ones that their own text says. -/
theorem ofText?_text_iff {t : Instant} : ofText? t.text = some t ↔ t.IsWritable :=
  ⟨fun h => ⟨isRegular_of_ofText? h, inCalendar_of_ofText? h⟩, ofText?_text⟩

end Instant

end PriceAction
