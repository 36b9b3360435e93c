import PriceAction.Power

/-!
# Instants

A point in time counts the seconds since the start of 1970 and the nanoseconds into that second.
A leap second is written into the second before it: its nanoseconds run from `10 ^ 9` on.
-/

namespace PriceAction

structure Instant where
  seconds : Int
  nanos : Nat
deriving DecidableEq, Repr, Inhabited

namespace Instant

def ofSeconds (s : Int) : Instant := ⟨s, 0⟩

/-! ## Order -/

instance : LT Instant :=
  ⟨fun a b => a.seconds < b.seconds ∨ (a.seconds = b.seconds ∧ a.nanos < b.nanos)⟩

instance : LE Instant :=
  ⟨fun a b => a.seconds < b.seconds ∨ (a.seconds = b.seconds ∧ a.nanos ≤ b.nanos)⟩

instance (a b : Instant) : Decidable (a < b) :=
  inferInstanceAs (Decidable (_ ∨ _))

instance (a b : Instant) : Decidable (a ≤ b) :=
  inferInstanceAs (Decidable (_ ∨ _))

theorem lt_iff {a b : Instant} :
    a < b ↔ a.seconds < b.seconds ∨ (a.seconds = b.seconds ∧ a.nanos < b.nanos) := Iff.rfl

theorem le_iff {a b : Instant} :
    a ≤ b ↔ a.seconds < b.seconds ∨ (a.seconds = b.seconds ∧ a.nanos ≤ b.nanos) := Iff.rfl

/-! ## Arithmetic -/

/-- The instant a whole number of seconds later. Any step out of a leap second first turns it into
an ordinary second: the one before it on the way forward, the one after it on the way back. -/
def plus (t : Instant) (d : Int) : Instant :=
  if t.nanos < pow10 9 then ⟨t.seconds + d, t.nanos⟩
  else if 0 < d then ⟨t.seconds + d, t.nanos - pow10 9⟩
  else if d < 0 then ⟨t.seconds + 1 + d, t.nanos - pow10 9⟩
  else t

theorem plus_of_nanos_lt {t : Instant} (h : t.nanos < pow10 9) (d : Int) :
    t.plus d = ⟨t.seconds + d, t.nanos⟩ := by
  rw [plus, if_pos h]

end Instant

/-! ## Civil dates -/

/-- A day of the proleptic Gregorian calendar. -/
structure CivilDate where
  year : Int
  month : Nat
  day : Nat
deriving DecidableEq, Repr

namespace CivilDate

def isLeap (year : Int) : Bool :=
  year % 4 = 0 && (year % 100 ≠ 0 || year % 400 = 0)

def monthLength (year : Int) (month : Nat) : Nat :=
  if month = 2 then (if isLeap year then 29 else 28)
  else if month = 4 ∨ month = 6 ∨ month = 9 ∨ month = 11 then 30 else 31

/-- Whether the month and the day exist. -/
def isValid (c : CivilDate) : Bool :=
  1 ≤ c.month && c.month ≤ 12 && 1 ≤ c.day && c.day ≤ monthLength c.year c.month

/-- Days since 1 January 1970. Years are counted from March, so that the leap day comes last. -/
def toDays (c : CivilDate) : Int :=
  let year := if c.month ≤ 2 then c.year - 1 else c.year
  let era := year / 400
  let yearOfEra := year % 400
  let month := (c.month + 9) % 12
  let dayOfYear : Int := (153 * month + 2) / 5 + c.day - 1
  era * 146097 + yearOfEra * 365 + yearOfEra / 4 - yearOfEra / 100 + dayOfYear - 719468

/-- The date so many days after 1 January 1970. -/
def ofDays (days : Int) : CivilDate :=
  let shifted := days + 719468
  let era := shifted / 146097
  let dayOfEra := (shifted % 146097).toNat
  let yearOfEra := (dayOfEra - dayOfEra / 1460 + dayOfEra / 36524 - dayOfEra / 146096) / 365
  let dayOfYear := dayOfEra - (365 * yearOfEra + yearOfEra / 4 - yearOfEra / 100)
  let shiftedMonth := (5 * dayOfYear + 2) / 153
  let month := if shiftedMonth < 10 then shiftedMonth + 3 else shiftedMonth - 9
  let year : Int := yearOfEra + era * 400
  ⟨if month ≤ 2 then year + 1 else year, month, dayOfYear - (153 * shiftedMonth + 2) / 5 + 1⟩

end CivilDate

/-! ## The calendar's limits -/

namespace Instant

/-- The years that an instant may lie in. -/
def firstYear : Int := -262143

def lastYear : Int := 262142

/-- Whether the instant lies in a year of the calendar. -/
def inCalendar (t : Instant) : Bool :=
  (CivilDate.mk firstYear 1 1).toDays * 86400 ≤ t.seconds &&
    t.seconds < (CivilDate.mk (lastYear + 1) 1 1).toDays * 86400

end Instant

/-- The greatest number of seconds that a span of time may have, either way. -/
def longestSpan : Int := 9223372036854775

end PriceAction
