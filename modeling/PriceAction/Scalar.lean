/-!
# Scalars

Prices, ratios and strengths are written over an arbitrary scalar: binary floating point when the
program runs, exact rationals when a law is about the mathematics. Nothing here assumes that the
order is total, because a floating-point price may fail to be a number.
-/

namespace PriceAction

/-- What the analysis needs of a price. -/
class Scalar (α : Type) extends
    Add α, Sub α, Mul α, Div α, Neg α, LT α, LE α, NatCast α, OfScientific α where
  decLt (a b : α) : Decidable (a < b)
  decLe (a b : α) : Decidable (a ≤ b)
  /-- The distance from zero. -/
  abs : α → α
  /-- Whether the value is an ordinary number. -/
  isFinite : α → Bool
  /-- The total order that sorting uses; it also places the values that `<` cannot compare. -/
  order : α → α → Ordering
  /-- The greatest ordinary number, where the type has one. -/
  largest? : Option α
  /-- The value to two decimal places, a half going to the even neighbour. -/
  hundredths : α → String

namespace Scalar

variable {α : Type} [Scalar α]

instance instDecidableLT (a b : α) : Decidable (a < b) := decLt a b

instance instDecidableLE (a b : α) : Decidable (a ≤ b) := decLe a b

/-- The larger of two values, the first on a tie; a value that is no number gives way. -/
def max (a b : α) : α :=
  if a < b then b else if a ≤ a then a else b

/-- The smaller of two values, the first on a tie; a value that is no number gives way. -/
def min (a b : α) : α :=
  if b < a then b else if a ≤ a then a else b

/-- The value moved into the interval from `low` to `high`. -/
def clamp (a low high : α) : α :=
  if a < low then low else if high < a then high else a

/-- Whether the value lies in the closed interval. -/
def between (a low high : α) : Bool :=
  low ≤ a && a ≤ high

/-! ## Lists of scalars -/

/-- The sum, added from the left. -/
def sum : List α → α
  | [] => 0.0
  | x :: xs => xs.foldl (· + ·) x

/-- The product, multiplied from the left. -/
def product (xs : List α) : α :=
  xs.foldl (· * ·) 1.0

/-- The greatest of the values. The search starts below every ordinary number, so that a list of
values that are no numbers leaves the start. -/
def greatest (xs : List α) : α :=
  match largest? (α := α), xs with
  | some top, xs => xs.foldl max (-top)
  | none, [] => 0.0
  | none, x :: rest => rest.foldl max x

/-- The least of the values, searched from above every ordinary number. -/
def least (xs : List α) : α :=
  match largest? (α := α), xs with
  | some top, xs => xs.foldl min top
  | none, [] => 0.0
  | none, x :: rest => rest.foldl min x

/-- Whether the value is a number above the least ordinary one. -/
def aboveLeast (x : α) : Bool :=
  match largest? (α := α) with
  | some top => -top < x
  | none => true

end Scalar

end PriceAction
