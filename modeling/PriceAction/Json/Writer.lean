import PriceAction.Decimal.Notation
import PriceAction.Json.Value

/-!
# Writing data texts

Either on one line, or indented by two blanks for each open bracket. Reals always show a point or
an exponent.
-/

namespace PriceAction.Json

/-- A control character as four hexadecimal digits. -/
def controlEscape (c : Char) : String :=
  let digit (n : Nat) : Char := if n < 10 then Char.ofNat (48 + n) else Char.ofNat (87 + n)
  "\\u00" ++ String.ofList [digit (c.toNat / 16), digit (c.toNat % 16)]

def escape (c : Char) : String :=
  match c with
  | '"' => "\\\""
  | '\\' => "\\\\"
  | '\n' => "\\n"
  | '\r' => "\\r"
  | '\t' => "\\t"
  | '\x08' => "\\b"
  | '\x0c' => "\\f"
  | c => if c.toNat < 32 then controlEscape c else c.toString

def quoted (s : String) : String :=
  "\"" ++ String.join (s.toList.map escape) ++ "\""

/-- Line ends and blanks between the parts of a text. -/
structure Spacing where
  /-- Goes before each part inside brackets, given how many brackets are open. -/
  line : Nat → String
  /-- Goes after the colon of a field. -/
  afterColon : String

/-- Everything on one line. -/
def Spacing.compact : Spacing := ⟨fun _ => "", ""⟩

/-- A line for every part, indented by two blanks for each open bracket. -/
def Spacing.indented : Spacing := ⟨fun depth => "\n" ++ "".pushn ' ' (2 * depth), " "⟩

mutual

def write (sp : Spacing) : (depth : Nat) → Json → String
  | _, .null => "null"
  | _, .bool b => if b then "true" else "false"
  | _, .whole n => toString n
  | _, .real x => Decimal.Layout.data.float x
  | _, .text s => quoted s
  | _, .array [] => "[]"
  | depth, .array items =>
    "[" ++ writeItems sp (depth + 1) true items ++ sp.line depth ++ "]"
  | _, .object [] => "\x7b\x7d"
  | depth, .object fields =>
    "\x7b" ++ writeFields sp (depth + 1) true fields ++ sp.line depth ++ "\x7d"
  | _, .unreadable => "null"

def writeItems (sp : Spacing) : (depth : Nat) → (first : Bool) → List Json → String
  | _, _, [] => ""
  | depth, first, j :: rest =>
    (if first then "" else ",") ++ sp.line depth ++ write sp depth j ++
      writeItems sp depth false rest

def writeFields (sp : Spacing) : (depth : Nat) → (first : Bool) → List (String × Json) → String
  | _, _, [] => ""
  | depth, first, (name, j) :: rest =>
    (if first then "" else ",") ++ sp.line depth ++ quoted name ++ ":" ++ sp.afterColon ++
      write sp depth j ++ writeFields sp depth false rest

end

/-- The value on one line. -/
def compact (j : Json) : String := j.write .compact 0

/-- The value with a line for every part. -/
def pretty (j : Json) : String := j.write .indented 0

end PriceAction.Json
