import PriceAction.Digest.Sha1

/-!
# Ids made from names

A `NameId` is a number of 128 bits. The id of a name is the start of the digest of a fixed prefix
and the name, marked as an id of version five, so that equal names always have equal ids.
-/

namespace PriceAction

structure NameId where
  value : Nat
deriving DecidableEq, Repr

namespace NameId

/-- The number of big-endian bytes. -/
def ofBytes (bytes : List UInt8) : NameId :=
  ⟨bytes.foldl (fun n b => 256 * n + b.toNat) 0⟩

/-- The space of names that all ids here belong to. -/
def space : NameId := ⟨0x6ba7b8129dad11d180b400c04fd430c8⟩

/-- Puts the version five and the variant into the bytes that hold them. -/
def marked (bytes : List UInt8) : List UInt8 :=
  bytes.mapIdx fun i b =>
    if i = 6 then (b &&& 0x0F) ||| 0x50 else if i = 8 then (b &&& 0x3F) ||| 0x80 else b

/-- The id of a name. -/
def ofName (name : String) : NameId :=
  ofBytes (marked ((Digest.sha1 (Digest.bigEndian 16 space.value ++ name.toUTF8.toList)).take 16))

def hexDigit (n : Nat) : Char :=
  if n < 10 then Char.ofNat (48 + n) else Char.ofNat (87 + n)

/-- Thirty-two hexadecimal digits in groups of eight, four, four, four and twelve. -/
def text (id : NameId) : String :=
  let digits := (List.range 32).reverse.map fun i => hexDigit (id.value / pow2 (4 * i) % 16)
  let group (start count : Nat) := String.ofList ((digits.drop start).take count)
  "-".intercalate [group 0 8, group 8 4, group 12 4, group 16 4, group 20 12]

end NameId

end PriceAction
