/-!
# Data values

The values of a data file. Whole numbers and reals are told apart by their spelling, and an object
keeps its fields in the order of the text, repeated names included.
-/

namespace PriceAction

inductive Json where
  | null
  | bool (b : Bool)
  /-- A number written without a point or an exponent. -/
  | whole (n : Int)
  | real (x : Float)
  | text (s : String)
  | array (items : List Json)
  | object (fields : List (String × Json))
  /-- A well-formed text that denotes no value: a number past every real, or a string with half
  of a surrogate pair. It may be passed over, and nothing can be read from it. -/
  | unreadable
deriving Inhabited

namespace Json

mutual

/-- Whether every part of the value can be read and at most `depth` brackets are open at once. -/
def readableWithin : (depth : Nat) → Json → Bool
  | _, .unreadable => false
  | 0, .array _ => false
  | 0, .object _ => false
  | depth + 1, .array items => itemsReadableWithin depth items
  | depth + 1, .object fields => fieldsReadableWithin depth fields
  | _, _ => true

def itemsReadableWithin : (depth : Nat) → List Json → Bool
  | _, [] => true
  | depth, j :: rest => readableWithin depth j && itemsReadableWithin depth rest

def fieldsReadableWithin : (depth : Nat) → List (String × Json) → Bool
  | _, [] => true
  | depth, (_, j) :: rest => readableWithin depth j && fieldsReadableWithin depth rest

end

/-- A list of values, each written by `f`. -/
def arrayOf {β : Type} (f : β → Json) (xs : List β) : Json :=
  .array (xs.map f)

/-- A value that may be absent, written as `null` then. -/
def orNull {β : Type} (f : β → Json) : Option β → Json
  | none => .null
  | some x => f x

/-- A real number; what is no ordinary number is written as `null`. -/
def ofFloat (x : Float) : Json :=
  if x.isFinite then .real x else .null

def ofNat (n : Nat) : Json := .whole n

end Json

end PriceAction
