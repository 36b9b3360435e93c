import Mathlib.Algebra.Ring.Nat
import Mathlib.Data.List.Basic
import PriceAction.Digest.NameId

/-!
# The digest in natural numbers

Words are calculated with as natural numbers, and the words of a block are listed newest first, so
that each follows from the sixteen at the head of the list. A proof about certain names can calculate
their ids in this way (`NameId.ofName_eq_calculate`).
-/

namespace PriceAction

namespace Digest

/-! ## Pieces -/

section Pieces

variable {β : Type} {size fuel : Nat} {xs piece : List β}

theorem length_of_mem_pieces (h : size ∣ xs.length) (hpiece : piece ∈ pieces size fuel xs) :
    piece.length = size := by
  induction fuel generalizing xs with
  | zero => cases hpiece
  | succ fuel ih =>
    rw [pieces] at hpiece
    split at hpiece
    · cases hpiece
    · next hne =>
      have hpos : 0 < xs.length := List.length_pos_iff.2 fun hnil => hne (hnil ▸ rfl)
      rcases List.mem_cons.1 hpiece with rfl | hlater
      · exact List.length_take_of_le (Nat.le_of_dvd hpos h)
      · exact ih (List.length_drop ▸ Nat.dvd_sub h (Nat.dvd_refl size)) hlater

theorem length_pieces (hsize : 0 < size) (h : xs.length = fuel * size) :
    (pieces size fuel xs).length = fuel := by
  induction fuel generalizing xs with
  | zero => rfl
  | succ fuel ih =>
    rw [Nat.succ_mul] at h
    have hne : ¬xs.isEmpty := fun hnil => by
      rw [List.isEmpty_iff.1 hnil, List.length_nil] at h
      omega
    rw [pieces, if_neg hne, List.length_cons, ih (by rw [List.length_drop]; omega)]

theorem dvd_length_padded (message : List UInt8) : 64 ∣ (padded message).length := by
  rw [padded]
  simp only [List.length_append, List.length_singleton, List.length_replicate, bigEndian,
    List.length_map, List.length_reverse, List.length_range]
  omega

end Pieces

/-! ## Numbers for words -/

/-- The five words between blocks, as numbers. -/
structure Numbers where
  a : Nat
  b : Nat
  c : Nat
  d : Nat
  e : Nat

def Words.numbers (x : Words) : Numbers :=
  ⟨x.a.toNat, x.b.toNat, x.c.toNat, x.d.toNat, x.e.toNat⟩

namespace Numbers

def add (x y : Numbers) : Numbers :=
  ⟨(x.a + y.a) % pow2 32, (x.b + y.b) % pow2 32, (x.c + y.c) % pow2 32, (x.d + y.d) % pow2 32,
    (x.e + y.e) % pow2 32⟩

def rotateLeft (x n : Nat) : Nat := (x <<< n) % pow2 32 ||| (x >>> (32 - n))

def mix (t b c d : Nat) : Nat :=
  if t < 20 then ((b &&& c) ||| ((b ^^^ 0xFFFFFFFF) &&& d)) + 0x5A827999
  else if t < 40 then (b ^^^ c ^^^ d) + 0x6ED9EBA1
  else if t < 60 then ((b &&& c) ||| (b &&& d) ||| (c &&& d)) + 0x8F1BBCDC
  else (b ^^^ c ^^^ d) + 0xCA62C1D6

def round (words : List Nat) (x : Numbers) (t : Nat) : Numbers :=
  ⟨(rotateLeft x.a 5 + mix t x.b x.c x.d + x.e + words.getD t 0) % pow2 32, x.a,
    rotateLeft x.b 30, x.c, x.d⟩

def word (bytes : List UInt8) : Nat :=
  bytes.foldl (fun n b => (n <<< 8) % pow2 32 ||| b.toNat) 0

/-- `count` words more, the newest first, each from the sixteen before it. -/
def extend : (count : Nat) → List Nat → List Nat
  | 0, words => words
  | count + 1, words =>
    extend count
      (rotateLeft (words.getD 2 0 ^^^ words.getD 7 0 ^^^ words.getD 13 0 ^^^ words.getD 15 0) 1 ::
        words)

def schedule (block : List UInt8) : List Nat :=
  (extend 64 ((pieces 4 16 block).map word).reverse).reverse

def block (x : Numbers) (bytes : List UInt8) : Numbers :=
  let words := schedule bytes
  x.add ((List.range 80).foldl (round words) x)

end Numbers

variable {w : Array UInt32} {words : List Nat}

theorem toNat_rotateLeft (x n : UInt32) (hpos : 0 < n.toNat) (h : n.toNat < 32) :
    (rotateLeft x n).toNat = Numbers.rotateLeft x.toNat n.toNat := by
  have hrest : (32 - n).toNat = 32 - n.toNat :=
    UInt32.toNat_sub_of_le _ _ (UInt32.le_iff_toNat_le.2 (Nat.le_of_lt h))
  have hless : 32 - n.toNat < 32 := by omega
  rw [rotateLeft, Numbers.rotateLeft, UInt32.toNat_or, UInt32.toNat_shiftLeft,
    UInt32.toNat_shiftRight, hrest, Nat.mod_eq_of_lt h, Nat.mod_eq_of_lt hless]
  rfl

theorem toNat_mix (t : Nat) (b c d : UInt32) :
    (mix t b c d).toNat = Numbers.mix t b.toNat c.toNat d.toNat % pow2 32 := by
  rw [mix, Numbers.mix]
  split_ifs <;> simp [pow2]

theorem toNat_word (bytes : List UInt8) : (word bytes).toNat = Numbers.word bytes := by
  refine (List.foldl_hom UInt32.toNat fun n b => ?_).symm
  rw [UInt32.toNat_or, UInt32.toNat_shiftLeft, UInt8.toNat_toUInt32]
  rfl

theorem numbers_add (x y : Words) : (x.add y).numbers = x.numbers.add y.numbers := by
  simp [Words.add, Words.numbers, Numbers.add, pow2]

/-! ## Blocks -/

theorem numbers_round (h : ∀ t, (w.getD t 0).toNat = words.getD t 0) (x : Words) (t : Nat) :
    (round w x t).numbers = Numbers.round words x.numbers t := by
  have hfirst : (rotateLeft x.a 5 + mix t x.b x.c x.d + x.e + w.getD t 0).toNat =
      (Numbers.rotateLeft x.a.toNat 5 + Numbers.mix t x.b.toNat x.c.toNat x.d.toNat + x.e.toNat +
        words.getD t 0) % pow2 32 := by
    rw [UInt32.toNat_add, UInt32.toNat_add, UInt32.toNat_add, toNat_mix, h,
      toNat_rotateLeft x.a 5 (by decide) (by decide)]
    simp only [pow2, Nat.add_mod_mod, Nat.mod_add_mod]
    rfl
  have hsecond : (rotateLeft x.b 30).toNat = Numbers.rotateLeft x.b.toNat 30 :=
    toNat_rotateLeft x.b 30 (by decide) (by decide)
  rw [round, Words.numbers, Numbers.round]
  dsimp only
  rw [hfirst, hsecond]
  rfl

theorem getD_toArray_reverse {latest : List UInt32} {i j : Nat} (h : j + i + 1 = latest.length) :
    (latest.reverse.toArray.getD i 0).toNat = (latest.map (·.toNat)).getD j 0 := by
  have hi : i < latest.length := by omega
  have hj : latest.length - 1 - i = j := by omega
  rw [Array.getD_eq_getD_getElem?, List.getElem?_toArray, List.getElem?_reverse hi, hj,
    List.getD_eq_getElem?_getD, List.getElem?_map]
  cases latest[j]? <;> rfl

theorem foldl_push_eq_extend (count : Nat) {latest : List UInt32} (h : 16 ≤ latest.length) :
    ((List.range' latest.length count).foldl
      (fun w t =>
        w.push (rotateLeft
          (w.getD (t - 3) 0 ^^^ w.getD (t - 8) 0 ^^^ w.getD (t - 14) 0 ^^^ w.getD (t - 16) 0) 1))
      latest.reverse.toArray).toList.map (·.toNat) =
      (Numbers.extend count (latest.map (·.toNat))).reverse := by
  induction count generalizing latest with
  | zero => exact List.map_reverse
  | succ count ih =>
    rw [List.range'_succ, List.foldl_cons, List.push_toArray, ← List.reverse_cons, Numbers.extend,
      ← getD_toArray_reverse (i := latest.length - 3) (by omega),
      ← getD_toArray_reverse (i := latest.length - 8) (by omega),
      ← getD_toArray_reverse (i := latest.length - 14) (by omega),
      ← getD_toArray_reverse (i := latest.length - 16) (by omega)]
    have hnext (x : UInt32) : Numbers.rotateLeft x.toNat 1 = (rotateLeft x 1).toNat :=
      (toNat_rotateLeft x 1 (by decide) (by decide)).symm
    rw [← UInt32.toNat_xor, ← UInt32.toNat_xor, ← UInt32.toNat_xor, hnext]
    exact ih (Nat.le_succ_of_le h)

variable {bytes : List UInt8}

theorem toNat_getD_schedule (h : bytes.length = 64) (t : Nat) :
    ((schedule bytes).getD t 0).toNat = (Numbers.schedule bytes).getD t 0 := by
  have hlength : ((pieces 4 16 bytes).map word).reverse.length = 16 := by
    rw [List.length_reverse, List.length_map, length_pieces (by decide) h]
  have hwords : (schedule bytes).toList.map (·.toNat) = Numbers.schedule bytes := by
    have hfold := foldl_push_eq_extend 64 (Nat.le_of_eq hlength.symm)
    rw [hlength, List.reverse_reverse, List.map_reverse, List.map_map] at hfold
    rw [Numbers.schedule, ← funext toNat_word]
    exact hfold
  rw [← hwords, Array.getD_eq_getD_getElem?, List.getD_eq_getElem?_getD, List.getElem?_map,
    Array.getElem?_toList]
  cases (schedule bytes)[t]? <;> rfl

theorem numbers_block (x : Words) (h : bytes.length = 64) :
    (block x bytes).numbers = x.numbers.block bytes := by
  have hrounds (turns : List Nat) : (turns.foldl (round (schedule bytes)) x).numbers =
      turns.foldl (Numbers.round (Numbers.schedule bytes)) x.numbers :=
    (List.foldl_hom Words.numbers fun y t =>
      (numbers_round (toNat_getD_schedule h) y t).symm).symm
  rw [block, numbers_add, hrounds]
  rfl

/-- The digest, from a state of numbers. -/
def Numbers.sha1 (message : List UInt8) : List UInt8 :=
  let bytes := padded message
  let x := (pieces 64 bytes.length bytes).foldl Numbers.block Words.start.numbers
  [x.a, x.b, x.c, x.d, x.e].flatMap (bigEndian 4)

theorem sha1_eq (message : List UInt8) : sha1 message = Numbers.sha1 message := by
  have hblocks (blocks : List (List UInt8)) (h : ∀ bytes ∈ blocks, bytes.length = 64) (x : Words) :
      (blocks.foldl block x).numbers = blocks.foldl Numbers.block x.numbers := by
    induction blocks generalizing x with
    | nil => rfl
    | cons bytes blocks ih =>
      rw [List.foldl_cons, List.foldl_cons, ← numbers_block x (h bytes List.mem_cons_self)]
      exact ih (fun _ hlater => h _ (List.mem_cons_of_mem _ hlater)) _
  rw [sha1, Numbers.sha1, ← hblocks _ fun _ => length_of_mem_pieces (dvd_length_padded message)]
  rfl

end Digest

namespace NameId

/-- The id of a name, from a digest in numbers. -/
def calculate (name : String) : NameId :=
  ofBytes (marked ((Digest.Numbers.sha1
    (Digest.bigEndian 16 space.value ++ name.toUTF8.toList)).take 16))

theorem ofName_eq_calculate : ofName = calculate := by
  funext name
  rw [ofName, Digest.sha1_eq, calculate]

end NameId

end PriceAction
