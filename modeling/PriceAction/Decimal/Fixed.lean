import PriceAction.Decimal.Binary

/-!
# A set number of decimal places

The exact value is rounded once, a half going to the even neighbour, and the sign is kept even
when nothing but zeros is left of the value.
-/

namespace PriceAction.Decimal

/-- The quotient rounded to a whole number, a half going to the even neighbour. -/
def roundHalfEven (num den : Nat) : Nat :=
  let whole := num / den
  let rest := num % den
  if 2 * rest < den then whole
  else if den < 2 * rest then whole + 1
  else if whole % 2 = 0 then whole else whole + 1

/-- The decimal digits of `n`, with zeros in front up to the given width. -/
def padded (width n : Nat) : String :=
  let digits := toString n
  "".pushn '0' (width - digits.length) ++ digits

/-- The quotient `num / den` to two decimal places. -/
def hundredths (negative : Bool) (num den : Nat) : String :=
  let scaled := roundHalfEven (num * 100) den
  (if negative then "-" else "") ++ toString (scaled / 100) ++ "." ++ padded 2 (scaled % 100)

/-- A floating-point number to two decimal places. -/
def floatHundredths (x : Float) : String :=
  match Parts.ofFloat x with
  | .notANumber => "NaN"
  | .infinite false => "inf"
  | .infinite true => "-inf"
  | .finite negative b => hundredths negative b.numerator b.denominator

end PriceAction.Decimal
