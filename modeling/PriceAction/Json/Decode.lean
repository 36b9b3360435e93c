import PriceAction.Calendar.Text
import PriceAction.Decimal.Nearest
import PriceAction.Json.Value
import PriceAction.Power

/-!
# Taking data values apart

A record is an object with each known name at most once, or an array of its fields in order; names
that are not known are passed over. `slots?` lines the fields up, and the readers of single values
then take them one by one.
-/

namespace PriceAction.Json

/-! ## Single values -/

/-- A real number, however it is spelled. -/
def float? : Json → Option Float
  | .whole n => Decimal.nearestInt? n
  | .real x => some x
  | _ => none

/-- A whole number below `2 ^ bits`. -/
def natBelow? (bits : Nat) : Json → Option Nat
  | .whole n => if 0 ≤ n ∧ n < pow2 bits then some n.toNat else none
  | _ => none

/-- A whole number of 64 bits with a sign. -/
def int? : Json → Option Int
  | .whole n => if -(pow2 63 : Int) ≤ n ∧ n < pow2 63 then some n else none
  | _ => none

def text? : Json → Option String
  | .text s => some s
  | _ => none

def instant? : Json → Option Instant
  | .text s => Instant.ofText? s
  | _ => none

def array? : Json → Option (List Json)
  | .array items => some items
  | _ => none

def object? : Json → Option (List (String × Json))
  | .object fields => some fields
  | _ => none

/-- A list, each item read by `f`. -/
def list? {β : Type} (f : Json → Option β) (j : Json) : Option (List β) :=
  j.array?.bind fun items => items.mapM f

/-- A value that `null` marks as absent. -/
def optional? {β : Type} (f : Json → Option β) : Json → Option (Option β)
  | .null => some none
  | j => (f j).map some

/-! ## Records -/

/-- The field of that name, if there is exactly one; more than one is an error. -/
def slot? (fields : List (String × Json)) (name : String) : Option (Option Json) :=
  match fields.filter (·.1 = name) with
  | [] => some none
  | [(_, j)] => some (some j)
  | _ => none

/-- The fields of a record with the given names, in their order; absent ones are `none`. -/
def slots? (names : List String) : Json → Option (List (Option Json))
  | .object fields => names.mapM (slot? fields)
  | .array items =>
    if items.length ≤ names.length then
      some (items.map some ++ List.replicate (names.length - items.length) none)
    else none
  | _ => none

/-- A field that has to be there. -/
def required? {β : Type} (f : Json → Option β) (slot : Option Json) : Option β :=
  slot.bind f

/-- A field with a value to fall back on when it is absent. -/
def fallback? {β : Type} (f : Json → Option β) (value : β) : Option Json → Option β
  | none => some value
  | some j => f j

end PriceAction.Json
