import Mathlib.Algebra.Ring.Nat
import Mathlib.Data.List.Basic
import Mathlib.Data.List.Induction
import PriceAction.Digest.NameId

/-!
# The text of an id tells it apart

Ids made from names have 128 bits (`NameId.ofName_lt`), which the thirty-two digits of their text
hold. So two such ids with one text are equal (`NameId.text_injective`), whatever follows the text
(`NameId.eq_of_append`), since all texts have one length.
-/

namespace PriceAction.NameId

/-! ## Size -/

theorem ofBytes_append (bytes : List UInt8) (b : UInt8) :
    (ofBytes (bytes ++ [b])).value = 256 * (ofBytes bytes).value + b.toNat := by
  rw [ofBytes, List.foldl_concat]
  rfl

theorem ofBytes_lt (bytes : List UInt8) : (ofBytes bytes).value < 256 ^ bytes.length := by
  induction bytes using List.reverseRecOn with
  | nil => exact Nat.one_pos
  | append_singleton rest b ih =>
    have hb : b.toNat < 256 := b.toNat_lt
    rw [ofBytes_append, List.length_append, List.length_singleton, Nat.pow_succ]
    omega

theorem ofName_lt (name : String) : (ofName name).value < 16 ^ 32 := by
  unfold ofName
  generalize hbytes : marked _ = bytes
  have hlength : bytes.length ≤ 16 := by
    rw [← hbytes, marked, List.length_mapIdx]
    exact List.length_take_le ..
  calc (ofBytes bytes).value < 256 ^ bytes.length := ofBytes_lt bytes
    _ ≤ 256 ^ 16 := Nat.pow_le_pow_right (by decide) hlength
    _ = 16 ^ 32 := by decide

/-! ## Digits -/

theorem hexDigit_injective : ∀ m < 16, ∀ n < 16, hexDigit m = hexDigit n → m = n := by
  decide

theorem mod_eq_of_digits {a b : Nat} (k : Nat)
    (h : ∀ i < k, a / 16 ^ i % 16 = b / 16 ^ i % 16) : a % 16 ^ k = b % 16 ^ k := by
  induction k with
  | zero => rw [Nat.pow_zero, Nat.mod_one, Nat.mod_one]
  | succ k ih =>
    rw [Nat.pow_succ, Nat.mod_mul, Nat.mod_mul, ih fun i hi => h i (Nat.lt_succ_of_lt hi),
      h k (Nat.lt_succ_self k)]

/-- The digits of an id, the most significant first. -/
def digits (id : NameId) : List Char :=
  (List.range 32).reverse.map fun i => hexDigit (id.value / pow2 (4 * i) % 16)

theorem length_digits (id : NameId) : id.digits.length = 32 := by
  rw [digits, List.length_map, List.length_reverse, List.length_range]

theorem value_eq_of_digits {a b : NameId} (ha : a.value < 16 ^ 32) (hb : b.value < 16 ^ 32)
    (h : a.digits = b.digits) : a = b := by
  have hdigits : ∀ i < 32, a.value / 16 ^ i % 16 = b.value / 16 ^ i % 16 := by
    intro i hi
    have hpow : pow2 (4 * i) = 16 ^ i := Nat.pow_mul 2 4 i
    have hsame := List.map_inj_left.1 h i (by simpa using hi)
    rw [hpow] at hsame
    exact hexDigit_injective _ (Nat.mod_lt _ (by decide)) _ (Nat.mod_lt _ (by decide)) hsame
  have hmod := mod_eq_of_digits 32 hdigits
  rw [Nat.mod_eq_of_lt ha, Nat.mod_eq_of_lt hb] at hmod
  cases a
  cases b
  exact congrArg mk hmod

/-! ## Text -/

theorem toList_text (id : NameId) :
    id.text.toList = id.digits.take 8 ++ '-' :: ((id.digits.drop 8).take 4 ++
      '-' :: ((id.digits.drop 12).take 4 ++ '-' :: ((id.digits.drop 16).take 4 ++
      '-' :: (id.digits.drop 20).take 12))) := by
  rw [text, ← digits]
  simp [String.intercalate_cons_cons, String.intercalate_singleton]

theorem length_text (id : NameId) : id.text.toList.length = 36 := by
  simp [toList_text, length_digits]

theorem digits_eq_groups (id : NameId) :
    id.digits = id.digits.take 8 ++ ((id.digits.drop 8).take 4 ++ ((id.digits.drop 12).take 4 ++
      ((id.digits.drop 16).take 4 ++ (id.digits.drop 20).take 12))) := by
  have hlast : (id.digits.drop 20).take 12 = id.digits.drop 20 :=
    List.take_of_length_le (by simp [length_digits])
  have hsplit (k n : Nat) :
      (id.digits.drop k).take n ++ id.digits.drop (k + n) = id.digits.drop k := by
    rw [← List.drop_drop, List.take_append_drop]
  rw [hlast, hsplit 16 4, hsplit 12 4, hsplit 8 4, List.take_append_drop]

theorem text_injective {a b : NameId} (ha : a.value < 16 ^ 32) (hb : b.value < 16 ^ 32)
    (h : a.text.toList = b.text.toList) : a = b := by
  rw [toList_text, toList_text] at h
  obtain ⟨h₁, h⟩ := List.append_inj h (by simp [length_digits])
  obtain ⟨h₂, h⟩ := List.append_inj (List.tail_eq_of_cons_eq h) (by simp [length_digits])
  obtain ⟨h₃, h⟩ := List.append_inj (List.tail_eq_of_cons_eq h) (by simp [length_digits])
  obtain ⟨h₄, h⟩ := List.append_inj (List.tail_eq_of_cons_eq h) (by simp [length_digits])
  have h₅ := List.tail_eq_of_cons_eq h
  apply value_eq_of_digits ha hb
  rw [digits_eq_groups a, h₁, h₂, h₃, h₄, h₅, ← digits_eq_groups b]

theorem eq_of_append {a b : NameId} (ha : a.value < 16 ^ 32) (hb : b.value < 16 ^ 32)
    {later later' : List Char} (h : a.text.toList ++ later = b.text.toList ++ later') : a = b := by
  obtain ⟨htext, -⟩ := List.append_inj h (by rw [length_text, length_text])
  exact text_injective ha hb htext

end PriceAction.NameId
