/-!
# Blank characters

The characters with the Unicode property of white space, and trimming by them.
-/

namespace PriceAction.Text

/-- Whether the character has the property of white space. -/
def isBlank (c : Char) : Bool :=
  let n := c.toNat
  (9 ≤ n && n ≤ 13) || n = 0x20 || n = 0x85 || n = 0xA0 || n = 0x1680 ||
    (0x2000 ≤ n && n ≤ 0x200A) || n = 0x2028 || n = 0x2029 || n = 0x202F || n = 0x205F ||
    n = 0x3000

/-- The characters from the first that is not blank. -/
def dropBlank (cs : List Char) : List Char :=
  cs.dropWhile isBlank

/-- The characters without blanks at either end. -/
def trim (cs : List Char) : List Char :=
  (dropBlank (dropBlank cs).reverse).reverse

/-- Whether the character is one of the ten ASCII digits. -/
def isDigit (c : Char) : Bool :=
  '0' ≤ c && c ≤ '9'

/-- The number below ten that a digit denotes. -/
def digitValue (c : Char) : Nat :=
  c.toNat - '0'.toNat

/-- The whole number that digits denote. -/
def number (digits : List Char) : Nat :=
  digits.foldl (fun n c => 10 * n + digitValue c) 0

end PriceAction.Text
