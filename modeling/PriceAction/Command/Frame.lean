import PriceAction.Power

/-!
# Compressed files

A compressed file is a row of frames, and a frame is a header and a row of blocks. `store` writes
one frame whose blocks hold their bytes as they are; such a frame is valid for every reader of the
format. `load?` reads blocks of plain and of repeated bytes, and no others.
-/

namespace PriceAction.Command

abbrev Bytes := List UInt8

namespace Frame

/-- The four bytes that every frame starts with. -/
def mark : Bytes := [0x28, 0xB5, 0x2F, 0xFD]

/-- The most bytes of one block. -/
def blockSize : Nat := pow2 17

/-- The low bytes of a number, the lowest first. -/
def littleEndian : (count : Nat) → Nat → Bytes
  | 0, _ => []
  | count + 1, n => UInt8.ofNat n :: littleEndian count (n / 256)

/-- The number that bytes stand for, the lowest first. -/
def ofLittleEndian (bytes : Bytes) : Nat :=
  bytes.foldr (fun b n => b.toNat + 256 * n) 0

/-! ## Writing -/

/-- A block of plain bytes. -/
def block (isLast : Bool) (content : Bytes) : Bytes :=
  littleEndian 3 (8 * content.length + (if isLast then 1 else 0)) ++ content

def blocks : (fuel : Nat) → Bytes → Bytes
  | 0, content => block true content
  | fuel + 1, content =>
    if content.length ≤ blockSize then block true content
    else block false (content.take blockSize) ++ blocks fuel (content.drop blockSize)

/-- One frame with the given content. Its header says that the content is one segment and has a
size of eight bytes. -/
def store (content : Bytes) : Bytes :=
  mark ++ 0xE0 :: littleEndian 8 content.length ++ blocks content.length content

/-! ## Reading -/

/-- The number of bytes between the descriptor of a frame and its first block: a window size
unless there is one segment, the number of a dictionary and the size of the content. -/
def headerRest (descriptor : Nat) : Nat :=
  let single := descriptor / 32 % 2
  let dictionary := match descriptor % 4 with
    | 3 => 4
    | n => n
  let content := match descriptor / 64 with
    | 0 => single
    | n => pow2 n
  (1 - single) + dictionary + content

/-- The content of the blocks of a frame, put before what has been taken, and the bytes after
them. -/
def content? : (fuel : Nat) → (taken : List Bytes) → Bytes → Option (List Bytes × Bytes)
  | 0, _, _ => none
  | fuel + 1, taken, a :: b :: c :: rest =>
    let header := ofLittleEndian [a, b, c]
    let size := header / 8
    let next : Option (Bytes × Bytes) :=
      match header / 2 % 4, rest with
      | 0, rest => if size ≤ rest.length then some (rest.take size, rest.drop size) else none
      | 1, byte :: rest => some (List.replicate size byte, rest)
      | _, _ => none
    match next with
    | none => none
    | some (content, rest) =>
      if header % 2 = 1 then some (content :: taken, rest)
      else content? fuel (content :: taken) rest
  | _ + 1, _, _ => none

/-- The content of a frame at the front of the bytes, put before what has been taken, and the
bytes after the frame. -/
def frame? (taken : List Bytes) : Bytes → Option (List Bytes × Bytes)
  | 0x28 :: 0xB5 :: 0x2F :: 0xFD :: descriptor :: rest =>
    let d := descriptor.toNat
    let skipped := headerRest d
    if d / 8 % 2 = 1 ∨ rest.length < skipped then none
    else
      match content? rest.length taken (rest.drop skipped) with
      | none => none
      | some (taken, rest) =>
        let check := if d / 4 % 2 = 1 then 4 else 0
        if rest.length < check then none else some (taken, rest.drop check)
  | _ => none

/-- One frame at least, and nothing after the last. -/
def frames? : (fuel : Nat) → (taken : List Bytes) → Bytes → Option (List Bytes)
  | 0, _, _ => none
  | fuel + 1, taken, bytes =>
    match frame? taken bytes with
    | none => none
    | some (taken, []) => some taken
    | some (taken, rest) => frames? fuel taken rest

/-- The content of all frames of a file. -/
def load? (bytes : Bytes) : Option Bytes :=
  (frames? (bytes.length + 1) [] bytes).map fun taken => taken.reverse.flatten

end Frame

end PriceAction.Command
