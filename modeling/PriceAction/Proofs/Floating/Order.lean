import PriceAction.Scalar.Floating

/-!
# The order of floating-point numbers

Every number that is one has a rank, and the comparisons of floating-point numbers are those of
their ranks (`lt_iff`, `le_iff`). Chains of comparisons follow.
-/

namespace PriceAction.Floating

open Float.Model Float.Model.UnpackedFloat

/-! ## Ranks -/

/-- Three whole numbers that are compared one after the other. -/
structure Rank where
  size : Int
  exponent : Int
  mantissa : Int

namespace Rank

/-- Whether a rank is below another. -/
def Below (x y : Rank) : Prop :=
  x.size < y.size ∨ x.size = y.size ∧
    (x.exponent < y.exponent ∨ x.exponent = y.exponent ∧ x.mantissa < y.mantissa)

theorem Below.trans_le {x y z : Rank} (hxy : x.Below y) (hzy : ¬z.Below y) : x.Below z := by
  rw [Below] at *
  omega

theorem Below.le_trans {x y z : Rank} (hyz : y.Below z) (hyx : ¬y.Below x) :
    x.Below z := by
  rw [Below] at *
  omega

theorem Below.trans {x y z : Rank} (hxy : x.Below y) (hyz : y.Below z) : x.Below z := by
  rw [Below] at *
  omega

theorem Below.irrefl (x : Rank) : ¬x.Below x := by
  rw [Below]
  omega

/-- The comparison of two ranks. -/
def compare (x y : Rank) : Ordering :=
  (Ord.compare x.size y.size).then
    ((Ord.compare x.exponent y.exponent).then (Ord.compare x.mantissa y.mantissa))

theorem compare_eq_lt {x y : Rank} : x.compare y = .lt ↔ x.Below y := by
  rw [compare, Below]
  simp only [Ordering.then_eq_lt, Int.compare_eq_lt, Int.compare_eq_eq]

theorem isLE_compare {x y : Rank} : (x.compare y).isLE = true ↔ ¬y.Below x := by
  have hgt : (x.compare y).isLE = true ↔ x.compare y ≠ .gt := by
    cases x.compare y <;> simp
  rw [hgt, compare, Below]
  simp only [ne_eq, Ordering.then_eq_gt, Int.compare_eq_gt, Int.compare_eq_eq]
  omega

end Rank

/-- The rank of an unpacked number: zero lies in the middle, and negative numbers are ranked the
other way around. -/
def rank? : UnpackedFloat → Option Rank
  | .notANumber => none
  | .infinity .negative => some ⟨-2, 0, 0⟩
  | .finite .negative m e _ => some ⟨-1, -e, -m⟩
  | .zero _ => some ⟨0, 0, 0⟩
  | .finite .positive m e _ => some ⟨1, e, m⟩
  | .infinity .positive => some ⟨2, 0, 0⟩

theorem compare_natCast (m n : Nat) : compare (m : Int) n = compare m n := by
  rcases Nat.lt_trichotomy m n with h | h | h
  · rw [Nat.compare_eq_lt.2 h, Int.compare_eq_lt]
    omega
  · rw [Nat.compare_eq_eq.2 h, Int.compare_eq_eq]
    omega
  · rw [Nat.compare_eq_gt.2 h, Int.compare_eq_gt]
    omega

theorem compare_neg (a b : Int) : compare (-a) (-b) = (compare a b).swap := by
  rw [Int.compare_swap]
  rcases Int.lt_trichotomy b a with h | h | h
  · rw [Int.compare_eq_lt.2 h, Int.compare_eq_lt]
    omega
  · rw [Int.compare_eq_eq.2 h, Int.compare_eq_eq]
    omega
  · rw [Int.compare_eq_gt.2 h, Int.compare_eq_gt]
    omega

theorem compare_eq (a b : UnpackedFloat) :
    a.compare b = (rank? a).bind fun x => (rank? b).map x.compare := by
  rcases a with (_ | _) | _ | (_ | _) | ⟨_ | _, m, e, hm⟩ <;>
    rcases b with (_ | _) | _ | (_ | _) | ⟨_ | _, m', e', hm'⟩ <;> try rfl
  -- two finite numbers of one sign
  · show some ((compare e e').then (compare m m')).swap =
      some ((compare (-e) (-e')).then (compare (-m : Int) (-m')))
    rw [Ordering.swap_then, compare_neg, compare_neg, compare_natCast]
  · show some ((compare e e').then (compare m m')) =
      some ((compare e e').then (compare (m : Int) m'))
    rw [compare_natCast]

/-! ## Comparisons -/

/-- The rank of a floating-point number. -/
def rankOf? (a : Float) : Option Rank :=
  rank? a.toModel.unpack

variable {a b c : Float}

theorem lt_iff : a < b ↔ ∃ x, rankOf? a = some x ∧ ∃ y, rankOf? b = some y ∧ x.Below y := by
  have hlt : a < b ↔ a.toModel.unpack.compare b.toModel.unpack = some .lt := by
    show decide ((a.toModel.unpack.compare b.toModel.unpack == some .lt) = true) = true ↔ _
    rw [decide_eq_true_iff, beq_iff_eq]
  rw [hlt, compare_eq, rankOf?, rankOf?]
  simp only [Option.bind_eq_some_iff, Option.map_eq_some_iff, Rank.compare_eq_lt]

theorem le_iff : a ≤ b ↔ ∃ x, rankOf? a = some x ∧ ∃ y, rankOf? b = some y ∧ ¬y.Below x := by
  have hle : a ≤ b ↔ (a.toModel.unpack.compare b.toModel.unpack).any (·.isLE) = true := by
    show decide ((a.toModel.unpack.compare b.toModel.unpack).any (·.isLE) = true) = true ↔ _
    rw [decide_eq_true_iff]
  rw [hle, compare_eq, rankOf?, rankOf?, Option.any_eq_true]
  constructor
  · rintro ⟨v, hv, hisLE⟩
    obtain ⟨x, hx, hmap⟩ := Option.bind_eq_some_iff.1 hv
    obtain ⟨y, hy, rfl⟩ := Option.map_eq_some_iff.1 hmap
    exact ⟨x, hx, y, hy, Rank.isLE_compare.1 hisLE⟩
  · rintro ⟨x, hx, y, hy, hnot⟩
    exact ⟨x.compare y, by rw [hx, hy]; rfl, Rank.isLE_compare.2 hnot⟩

theorem lt_of_lt_of_le (hab : a < b) (hbc : b ≤ c) : a < c := by
  rw [lt_iff] at *
  obtain ⟨x, hx, y, hy, hxy⟩ := hab
  obtain ⟨y', hy', z, hz, hyz⟩ := le_iff.1 hbc
  rw [hy] at hy'
  cases hy'
  exact ⟨x, hx, z, hz, hxy.trans_le hyz⟩

theorem lt_of_le_of_lt (hab : a ≤ b) (hbc : b < c) : a < c := by
  rw [lt_iff] at *
  obtain ⟨x, hx, y, hy, hxy⟩ := le_iff.1 hab
  obtain ⟨y', hy', z, hz, hyz⟩ := hbc
  rw [hy] at hy'
  cases hy'
  exact ⟨x, hx, z, hz, hyz.le_trans hxy⟩

theorem lt_trans (hab : a < b) (hbc : b < c) : a < c := by
  rw [lt_iff] at *
  obtain ⟨x, hx, y, hy, hxy⟩ := hab
  obtain ⟨y', hy', z, hz, hyz⟩ := hbc
  rw [hy] at hy'
  cases hy'
  exact ⟨x, hx, z, hz, hxy.trans hyz⟩

end PriceAction.Floating
