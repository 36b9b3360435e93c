/-!
# Powers of two and of ten

The places of binary words and of decimal digits, and the bounds of machine numbers.
-/

namespace PriceAction

/-- Two multiplied `n` times. -/
def pow2 (n : Nat) : Nat := Nat.pow 2 n

/-- Ten multiplied `n` times. -/
def pow10 (n : Nat) : Nat := Nat.pow 10 n

end PriceAction
