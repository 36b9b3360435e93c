import PriceAction.Json.Number

/-!
# Reading data texts

`Json.read?` reads one value and nothing else. Blanks are the space, the tab and the two line ends.
The recursion is bounded by the length of the text.
-/

namespace PriceAction.Json

/-- The text from the first character that is not a blank. -/
def skip (cs : List Char) : List Char :=
  cs.dropWhile fun c => c = ' ' || c = '\n' || c = '\t' || c = '\r'

/-! ## Strings -/

/-- The value of a hexadecimal digit. -/
def hexDigit? (c : Char) : Option Nat :=
  if '0' ≤ c ∧ c ≤ '9' then some (c.toNat - '0'.toNat)
  else if 'a' ≤ c ∧ c ≤ 'f' then some (c.toNat - 'a'.toNat + 10)
  else if 'A' ≤ c ∧ c ≤ 'F' then some (c.toNat - 'A'.toNat + 10)
  else none

/-- Four hexadecimal digits. -/
def hex? : List Char → Option (Nat × List Char)
  | a :: b :: c :: d :: rest => do
    some ((((← hexDigit? a) * 16 + (← hexDigit? b)) * 16 + (← hexDigit? c)) * 16 + (← hexDigit? d),
      rest)
  | _ => none

/-- The second half of a surrogate pair, if it follows. -/
def lowHalf? : List Char → Option (Nat × List Char)
  | '\\' :: 'u' :: rest => do
    let (low, rest) ← hex? rest
    if 0xDC00 ≤ low ∧ low ≤ 0xDFFF then some (low, rest) else none
  | _ => none

/-- The character of a short escape. -/
def escaped? (c : Char) : Option Char :=
  match c with
  | '"' => some '"'
  | '\\' => some '\\'
  | '/' => some '/'
  | 'b' => some '\x08'
  | 'f' => some '\x0c'
  | 'n' => some '\n'
  | 'r' => some '\r'
  | 't' => some '\t'
  | _ => none

/-- The rest of a string after its opening quote: its characters, unless half of a surrogate pair
stands alone in it, and the text after the closing quote. -/
def string? : (fuel : Nat) → (taken : List Char) → (paired : Bool) → List Char →
    Option (Option String × List Char)
  | 0, _, _, _ => none
  | _ + 1, _, _, [] => none
  | fuel + 1, taken, paired, c :: rest =>
    if c = '"' then
      some (if paired then some (String.ofList taken.reverse) else none, rest)
    else if c.toNat < 32 then none
    else if c ≠ '\\' then string? fuel (c :: taken) paired rest
    else match rest with
      | 'u' :: rest =>
        match hex? rest with
        | none => none
        | some (code, rest) =>
          if 0xD800 ≤ code ∧ code ≤ 0xDBFF then
            match lowHalf? rest with
            | some (low, rest) =>
              let c := Char.ofNat (0x10000 + (code - 0xD800) * 0x400 + (low - 0xDC00))
              string? fuel (c :: taken) paired rest
            | none => string? fuel taken false rest
          else if 0xDC00 ≤ code ∧ code ≤ 0xDFFF then string? fuel taken false rest
          else string? fuel (Char.ofNat code :: taken) paired rest
      | e :: rest =>
        match escaped? e with
        | some c => string? fuel (c :: taken) paired rest
        | none => none
      | [] => none

/-! ## Values -/

mutual

/-- A value at the front of the text. -/
def value? (p : Precision) : (fuel : Nat) → List Char → Option (Json × List Char)
  | 0, _ => none
  | fuel + 1, cs =>
    match skip cs with
    | 'n' :: 'u' :: 'l' :: 'l' :: rest => some (.null, rest)
    | 't' :: 'r' :: 'u' :: 'e' :: rest => some (.bool true, rest)
    | 'f' :: 'a' :: 'l' :: 's' :: 'e' :: rest => some (.bool false, rest)
    | '"' :: rest =>
      match string? (rest.length + 1) [] true rest with
      | some (some s, rest) => some (.text s, rest)
      | some (none, rest) => some (.unreadable, rest)
      | none => none
    | '[' :: rest =>
      match skip rest with
      | ']' :: rest => some (.array [], rest)
      | rest => items? p fuel [] rest
    | '{' :: rest =>
      match skip rest with
      | '}' :: rest => some (.object [], rest)
      | rest => fields? p fuel [] true rest
    | rest =>
      match numeral? rest with
      | some (n, rest) => some (n.value p, rest)
      | none => none

/-- The items of an array from one of them on, up to the closing bracket. -/
def items? (p : Precision) : (fuel : Nat) → (taken : List Json) → List Char →
    Option (Json × List Char)
  | 0, _, _ => none
  | fuel + 1, taken, cs =>
    match value? p fuel cs with
    | none => none
    | some (j, rest) =>
      match skip rest with
      | ',' :: rest => items? p fuel (j :: taken) rest
      | ']' :: rest => some (.array (j :: taken).reverse, rest)
      | _ => none

/-- The fields of an object from one of them on, up to the closing bracket. A name that cannot be
read makes the whole object unreadable. -/
def fields? (p : Precision) : (fuel : Nat) → (taken : List (String × Json)) → (named : Bool) →
    List Char → Option (Json × List Char)
  | 0, _, _, _ => none
  | fuel + 1, taken, named, cs =>
    match skip cs with
    | '"' :: rest =>
      match string? (rest.length + 1) [] true rest with
      | none => none
      | some (name, rest) =>
        match skip rest with
        | ':' :: rest =>
          match value? p fuel rest with
          | none => none
          | some (j, rest) =>
            let taken := (name.getD "", j) :: taken
            let named := named && name.isSome
            match skip rest with
            | ',' :: rest => fields? p fuel taken named rest
            | '}' :: rest => some (if named then .object taken.reverse else .unreadable, rest)
            | _ => none
        | _ => none
    | _ => none

end

/-- The value that a text denotes. -/
def read? (p : Precision) (s : String) : Option Json :=
  let cs := s.toList
  match value? p (2 * cs.length + 2) cs with
  | some (j, rest) => if (skip rest).isEmpty then some j else none
  | none => none

end PriceAction.Json
