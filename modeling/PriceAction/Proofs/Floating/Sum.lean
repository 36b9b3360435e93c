import PriceAction.Proofs.Floating.Order
import PriceAction.Proofs.Floating.Rounding

/-!
# Sums of floating-point numbers

Rounding may lose what is added, but not more: a positive number does not fall when a number that
is not negative is added (`le_add_of_nonneg`).
-/

namespace PriceAction.Floating

open Float.Model Float.Model.UnpackedFloat

/-! ## Targets of a sum -/

theorem log2_mul_two_pow {m : Nat} (hm : 0 < m) (k : Nat) : (m * 2 ^ k).log2 = m.log2 + k := by
  have hne : m * 2 ^ k ≠ 0 := Nat.ne_of_gt (Nat.mul_pos hm (Nat.two_pow_pos k))
  rw [Nat.log2_eq_iff hne, Nat.pow_add, Nat.add_right_comm, Nat.pow_add]
  exact ⟨Nat.mul_le_mul_right _ (Nat.log2_self_le (Nat.ne_of_gt hm)),
    Nat.mul_lt_mul_of_pos_right Nat.lt_log2_self (Nat.two_pow_pos k)⟩

theorem target_of_canonical {m : Nat} {e : Int} (h : Canonical m e) : target m e = e := by
  obtain ⟨hlt, hmin, hcan⟩ := h
  have hle := target_le_of_lt hlt hmin
  have heq := target_eq m e
  rcases hcan with hnormal | hleast
  · have hne : m ≠ 0 := by omega
    have hlog := (Nat.le_log2 hne).2 hnormal
    omega
  · omega

/-- What is at least a canonical number is rounded at its exponent or above, and cut to its
mantissa at least. -/
theorem le_target_of_le {m S : Nat} {e : Int} {k : Nat} (hm : 0 < m) (h : Canonical m e)
    (hS : m * 2 ^ k ≤ S) :
    e ≤ target S (e - k) ∧ (target S (e - k) = e → m ≤ cut S (e - k)) := by
  constructor
  · have hlog : m.log2 + k ≤ S.log2 := by
      have hpos : 0 < m * 2 ^ k := Nat.mul_pos hm (Nat.two_pow_pos k)
      rw [← log2_mul_two_pow hm, Nat.le_log2 (Nat.ne_of_gt (Nat.lt_of_lt_of_le hpos hS))]
      exact (Nat.log2_self_le (Nat.ne_of_gt hpos)).trans hS
    have := target_of_canonical h
    have := target_eq m e
    have := target_eq S (e - k)
    omega
  · intro heq
    have hk : (target S (e - k) - (e - k)).toNat = k := by omega
    rw [cut, hk, Nat.le_div_iff_mul_le (Nat.two_pow_pos k)]
    exact hS

/-! ## Adding -/

theorem add_positive {m n : Nat} {e f : Int} (hm : 0 < m) (hn : 0 < n) :
    UnpackedFloat.add Format.binary64 (.finite .positive m e hm) (.finite .positive n f hn) =
      UnpackedFloat.round Format.binary64 .positive
        (m * 2 ^ (e - min e f).toNat + n * 2 ^ (f - min e f).toNat) (min e f) := by
  have hpos : 0 < m * 2 ^ (e - min e f).toNat := Nat.mul_pos hm (Nat.two_pow_pos _)
  show UnpackedFloat.normalize Format.binary64
    ((m <<< (e - min e f).toNat : Nat) + (n <<< (f - min e f).toNat : Nat) : Int) (min e f)
      .positive = _
  rw [Nat.shiftLeft_eq, Nat.shiftLeft_eq, UnpackedFloat.normalize]
  have hgt : compare
      ((m * 2 ^ (e - min e f).toNat : Nat) + (n * 2 ^ (f - min e f).toNat : Nat) : Int) 0 = .gt := by
    rw [Int.compare_eq_gt]
    omega
  rw [hgt]
  rfl

theorem rank_add_positive {m n : Nat} {e f : Int} (hm : 0 < m) (hn : 0 < n) (hc : Canonical m e)
    (hd : Canonical n f) :
    ∃ x, rank? (Float.Model.pack (UnpackedFloat.add Format.binary64 (.finite .positive m e hm)
      (.finite .positive n f hn))).unpack = some x ∧ ¬x.Below ⟨1, e, m⟩ := by
  have hmin : -1074 ≤ min e f := by
    have := hc.2.1
    have := hd.2.1
    omega
  have hshift : e - ((e - min e f).toNat : Int) = min e f := by omega
  have hpos : 0 < m * 2 ^ (e - min e f).toNat + n * 2 ^ (f - min e f).toNat :=
    Nat.add_pos_left (Nat.mul_pos hm (Nat.two_pow_pos _)) _
  obtain ⟨hle, hcut⟩ := le_target_of_le hm hc (Nat.le_add_right _ (n * 2 ^ (f - min e f).toNat))
  rw [hshift] at hle hcut
  obtain ⟨r, t, hr, hround, hcan, hbound⟩ := round_positive hpos hmin (by omega)
  rw [add_positive, hround, unpack_pack_finite _ hr hcan]
  by_cases hfits : t ≤ 971
  · rw [if_pos hfits]
    refine ⟨⟨1, t, r⟩, rfl, ?_⟩
    rw [Rank.Below]
    dsimp only
    rcases hbound with hup | ⟨heq, hup⟩
    · omega
    · rcases Int.lt_or_eq_of_le hle with hlt | hsame
      · omega
      · have := hcut hsame.symm
        omega
  · rw [if_neg hfits]
    refine ⟨⟨2, 0, 0⟩, rfl, ?_⟩
    rw [Rank.Below]
    dsimp only
    omega

variable {c d : Float}

theorem unpack_of_pos (h : 0.0 < c) :
    c.toModel.unpack = .infinity .positive ∨
      ∃ m e hm, c.toModel.unpack = .finite .positive m e hm := by
  obtain ⟨x, hx, y, hy, hlt⟩ := lt_iff.1 h
  cases hx
  rw [rankOf?] at hy
  rw [Rank.Below] at hlt
  generalize c.toModel.unpack = v at hy ⊢
  rcases v with (_ | _) | _ | _ | ⟨_ | _, m, e, hm⟩ <;> cases hy <;> dsimp only at hlt
  · omega
  · exact Or.inl rfl
  · omega
  · omega
  · exact Or.inr ⟨m, e, hm, rfl⟩

theorem unpack_of_nonneg (h : 0.0 ≤ d) :
    (∃ s, d.toModel.unpack = .zero s) ∨ d.toModel.unpack = .infinity .positive ∨
      ∃ m e hm, d.toModel.unpack = .finite .positive m e hm := by
  obtain ⟨x, hx, y, hy, hnot⟩ := le_iff.1 h
  cases hx
  rw [rankOf?] at hy
  rw [Rank.Below] at hnot
  generalize d.toModel.unpack = v at hy ⊢
  rcases v with (_ | _) | _ | s | ⟨_ | _, m, e, hm⟩ <;> cases hy <;> dsimp only at hnot
  · omega
  · exact Or.inr (Or.inl rfl)
  · exact Or.inl ⟨s, rfl⟩
  · omega
  · exact Or.inr (Or.inr ⟨m, e, hm, rfl⟩)

/-- A positive number does not fall when a number that is not negative is added. -/
theorem le_add_of_nonneg (hc : 0.0 < c) (hd : 0.0 ≤ d) : c ≤ c + d := by
  have hsum : rankOf? (c + d) = rank? (Float.Model.pack
      (UnpackedFloat.add Format.binary64 c.toModel.unpack d.toModel.unpack)).unpack := rfl
  rw [le_iff, hsum, rankOf?]
  rcases unpack_of_pos hc with hcv | ⟨m, e, hm, hcv⟩
  · have hinf : ¬Rank.Below ⟨2, 0, 0⟩ ⟨2, 0, 0⟩ := Rank.Below.irrefl _
    refine ⟨⟨2, 0, 0⟩, by rw [hcv]; rfl, ⟨2, 0, 0⟩, ?_, hinf⟩
    have hadd : UnpackedFloat.add Format.binary64 (.infinity .positive) d.toModel.unpack =
        .infinity .positive := by
      rcases unpack_of_nonneg hd with ⟨s, hdv⟩ | hdv | ⟨n, f, hn, hdv⟩ <;> rw [hdv] <;> rfl
    rw [hcv, hadd, unpack_pack_infinity]
    rfl
  · obtain ⟨hcan, hmax⟩ := canonical_of_unpack hcv
    refine ⟨⟨1, e, m⟩, by rw [hcv]; rfl, ?_⟩
    rcases unpack_of_nonneg hd with ⟨s, hdv⟩ | hdv | ⟨n, f, hn, hdv⟩
    · refine ⟨⟨1, e, m⟩, ?_, Rank.Below.irrefl _⟩
      have hadd : UnpackedFloat.add Format.binary64 (.finite .positive m e hm) (.zero s) =
          .finite .positive m e hm := rfl
      rw [hcv, hdv, hadd, unpack_pack_finite _ hm hcan, if_pos hmax]
      rfl
    · refine ⟨⟨2, 0, 0⟩, ?_, by rw [Rank.Below]; dsimp only; omega⟩
      have hadd : UnpackedFloat.add Format.binary64 (.finite .positive m e hm)
          (.infinity .positive) = .infinity .positive := rfl
      rw [hcv, hdv, hadd, unpack_pack_infinity]
      rfl
    · rw [hcv, hdv]
      exact rank_add_positive hm hn hcan (canonical_of_unpack hdv).1

end PriceAction.Floating
