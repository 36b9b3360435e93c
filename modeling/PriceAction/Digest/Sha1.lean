import PriceAction.Power

/-!
# The SHA-1 digest

A message is padded to blocks of 64 bytes, each of which stirs a state of five words of 32 bits
through eighty rounds. The digest is the state after the last block.
-/

namespace PriceAction.Digest

/-- The five words between blocks. -/
structure Words where
  a : UInt32
  b : UInt32
  c : UInt32
  d : UInt32
  e : UInt32

namespace Words

def start : Words := ⟨0x67452301, 0xEFCDAB89, 0x98BADCFE, 0x10325476, 0xC3D2E1F0⟩

def add (x y : Words) : Words :=
  ⟨x.a + y.a, x.b + y.b, x.c + y.c, x.d + y.d, x.e + y.e⟩

end Words

def rotateLeft (x : UInt32) (n : UInt32) : UInt32 :=
  (x <<< n) ||| (x >>> (32 - n))

/-- `count` bytes of a number, the most significant first. -/
def bigEndian (count n : Nat) : List UInt8 :=
  (List.range count).reverse.map fun i => UInt8.ofNat (n / pow2 (8 * i) % 256)

/-- The message with a one bit, zeros, and its length in bits, a multiple of 64 bytes. -/
def padded (message : List UInt8) : List UInt8 :=
  let zeros := (119 - message.length % 64) % 64
  message ++ [0x80] ++ List.replicate zeros 0 ++ bigEndian 8 (8 * message.length)

def word : List UInt8 → UInt32
  | bytes => bytes.foldl (fun n b => (n <<< 8) ||| b.toUInt32) 0

/-- The list in pieces of `size`, as many as `fuel` allows. -/
def pieces {β : Type} (size : Nat) : (fuel : Nat) → List β → List (List β)
  | 0, _ => []
  | fuel + 1, xs => if xs.isEmpty then [] else xs.take size :: pieces size fuel (xs.drop size)

/-- The eighty words of a block: the sixteen it holds, then each from four before it. -/
def schedule (block : List UInt8) : Array UInt32 :=
  let first : Array UInt32 := ((pieces 4 16 block).map word).toArray
  (List.range' 16 64).foldl
    (fun w t =>
      w.push (rotateLeft
        (w.getD (t - 3) 0 ^^^ w.getD (t - 8) 0 ^^^ w.getD (t - 14) 0 ^^^ w.getD (t - 16) 0) 1))
    first

/-- How round `t` mixes three of the words, and its constant. -/
def mix (t : Nat) (b c d : UInt32) : UInt32 :=
  if t < 20 then ((b &&& c) ||| ((b ^^^ 0xFFFFFFFF) &&& d)) + 0x5A827999
  else if t < 40 then (b ^^^ c ^^^ d) + 0x6ED9EBA1
  else if t < 60 then ((b &&& c) ||| (b &&& d) ||| (c &&& d)) + 0x8F1BBCDC
  else (b ^^^ c ^^^ d) + 0xCA62C1D6

def round (w : Array UInt32) (x : Words) (t : Nat) : Words :=
  ⟨rotateLeft x.a 5 + mix t x.b x.c x.d + x.e + w.getD t 0, x.a, rotateLeft x.b 30, x.c, x.d⟩

def block (x : Words) (bytes : List UInt8) : Words :=
  let w := schedule bytes
  x.add ((List.range 80).foldl (round w) x)

/-- The twenty bytes of the digest. -/
def sha1 (message : List UInt8) : List UInt8 :=
  let bytes := padded message
  let x := (pieces 64 bytes.length bytes).foldl block .start
  [x.a, x.b, x.c, x.d, x.e].flatMap fun n => bigEndian 4 n.toNat

end PriceAction.Digest
