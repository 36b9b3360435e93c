import PriceAction.Calendar.Instant
import PriceAction.Decimal.Fixed
import PriceAction.Text.Blank

/-!
# Instants as text

Instants are written in UTC with the date first, and with three, six or nine digits of a fraction
when it is not zero. Reading takes any offset, a blank in place of the `T`, and blanks before the
separators.
-/

namespace PriceAction

open Text (dropBlank isBlank isDigit number)

/-! ## Writing -/

namespace Instant

/-- A year has four digits, and a sign when that is not enough. -/
def yearText (year : Int) : String :=
  if 0 ≤ year ∧ year ≤ 9999 then Decimal.padded 4 year.toNat
  else (if year < 0 then "-" else "+") ++ Decimal.padded 4 year.natAbs

def dateText (t : Instant) : String :=
  let date := CivilDate.ofDays (t.seconds / 86400)
  yearText date.year ++ "-" ++ Decimal.padded 2 date.month ++ "-" ++ Decimal.padded 2 date.day

/-- The fraction of a second, with the fewest of three, six and nine digits that lose nothing. -/
def fractionText (nanos : Nat) : String :=
  if nanos = 0 then ""
  else if nanos % 1000000 = 0 then "." ++ Decimal.padded 3 (nanos / 1000000)
  else if nanos % 1000 = 0 then "." ++ Decimal.padded 6 (nanos / 1000)
  else "." ++ Decimal.padded 9 nanos

/-- The time of day; a leap second shows as second sixty. -/
def timeText (t : Instant) : String :=
  let inDay := (t.seconds % 86400).toNat
  let leap := t.nanos / pow10 9
  Decimal.padded 2 (inDay / 3600) ++ ":" ++ Decimal.padded 2 (inDay / 60 % 60) ++ ":" ++
    Decimal.padded 2 (inDay % 60 + leap) ++ fractionText (t.nanos % pow10 9)

/-- The form used in data files. -/
def text (t : Instant) : String :=
  t.dateText ++ "T" ++ t.timeText ++ "Z"

/-- The form used in names, which spells the offset of UTC out. -/
def offsetText (t : Instant) : String :=
  t.dateText ++ "T" ++ t.timeText ++ "+00:00"

/-- The form used in messages. -/
def plainText (t : Instant) : String :=
  t.dateText ++ " " ++ t.timeText ++ " UTC"

end Instant

/-! ## Reading -/

namespace Instant

/-- A number of one to `width` digits, after blanks. -/
def digits? (width : Nat) (cs : List Char) : Option (Nat × List Char) :=
  let cs := dropBlank cs
  let taken := (cs.take width).takeWhile isDigit
  if taken.isEmpty then none else some (number taken, cs.drop taken.length)

/-- A year: up to four digits, or any number of them after a sign. -/
def year? (cs : List Char) : Option (Int × List Char) :=
  let signed (cs : List Char) : Option (Nat × List Char) :=
    let taken := cs.takeWhile isDigit
    if taken.isEmpty then none else some (number taken, cs.drop taken.length)
  match dropBlank cs with
  | '-' :: rest => (signed rest).map fun (n, rest) => (-(n : Int), rest)
  | '+' :: rest => (signed rest).map fun (n, rest) => ((n : Int), rest)
  | cs => (digits? 4 cs).map fun (n, rest) => ((n : Int), rest)

/-- The given mark, after blanks. -/
def mark? (c : Char) (cs : List Char) : Option (List Char) :=
  match dropBlank cs with
  | d :: rest => if d = c then some rest else none
  | [] => none

/-- The nanoseconds of a fraction; digits past the ninth are dropped. -/
def fraction? : List Char → Option (Nat × List Char)
  | '.' :: rest =>
    let taken := rest.takeWhile isDigit
    if taken.isEmpty then none
    else
      let kept := taken.take 9
      some (number kept * pow10 (9 - kept.length), rest.drop taken.length)
  | cs => some (0, cs)

/-- Two digits, the first below the given bound. -/
def twoDigits? (bound : Char) : List Char → Option (Nat × List Char)
  | a :: b :: rest => if isDigit a && a < bound && isDigit b then some (number [a, b], rest) else none
  | _ => none

/-- Seconds east of Greenwich: `Z`, `UTC`, or a sign with hours and minutes below a day. -/
def offset? (cs : List Char) : Option (Int × List Char) :=
  let signed (sign : Int) (rest : List Char) : Option (Int × List Char) := do
    let (hours, rest) ← twoDigits? ':' rest
    let rest := rest.dropWhile fun c => c = ':' || isBlank c
    let (minutes, rest) ← twoDigits? '6' rest
    if hours < 24 then some (sign * (hours * 3600 + minutes * 60), rest) else none
  match cs with
  | 'Z' :: rest => some (0, rest)
  | 'z' :: rest => some (0, rest)
  | '+' :: rest => signed 1 rest
  | '-' :: rest => signed (-1) rest
  | '\u2212' :: rest => signed (-1) rest
  | u :: t :: c :: rest =>
    if u.toLower = 'u' ∧ t.toLower = 't' ∧ c.toLower = 'c' then some (0, rest) else none
  | _ => none

/-- The date and the separator after it. -/
def date? (cs : List Char) : Option (CivilDate × List Char) := do
  let (year, rest) ← year? cs
  let rest ← mark? '-' rest
  let (month, rest) ← digits? 2 rest
  let rest ← mark? '-' rest
  let (day, rest) ← digits? 2 rest
  let date : CivilDate := ⟨year, month, day⟩
  match rest with
  | c :: rest =>
    if date.isValid && firstYear ≤ year && year ≤ lastYear && (c = 't' || c = 'T' || c = ' ') then
      some (date, rest)
    else none
  | [] => none

/-- The second of the day and the nanoseconds. -/
def time? (cs : List Char) : Option (Nat × Nat × List Char) := do
  let (hour, rest) ← digits? 2 cs
  let rest ← mark? ':' rest
  let (minute, rest) ← digits? 2 rest
  let rest ← mark? ':' rest
  let (second, rest) ← digits? 2 rest
  let (nanos, rest) ← fraction? rest
  if hour < 24 ∧ minute < 60 ∧ second ≤ 60 then
    let inDay := hour * 3600 + minute * 60
    if second = 60 then some (inDay + 59, pow10 9 + nanos, dropBlank rest)
    else some (inDay + second, nanos, dropBlank rest)
  else none

/-- The instant that a text denotes. -/
def ofText? (s : String) : Option Instant := do
  let (date, rest) ← date? s.toList
  let (inDay, nanos, rest) ← time? rest
  let (offset, rest) ← offset? rest
  let t : Instant := ⟨date.toDays * 86400 + inDay - offset, nanos⟩
  if (dropBlank rest).isEmpty && t.inCalendar then some t else none

end Instant

end PriceAction
