import PriceAction.Proofs.Floating.Packing

/-!
# Rounding of floating-point numbers

`S * 2 ^ e` is rounded at the exponent `target S e`: the mantissa is cut there, then raised by one
or not, and moves one place further if that overflows it. So rounding ends in a canonical pair that
is not below the cut (`round_positive`).
-/

namespace PriceAction.Floating

open Float.Model Float.Model.UnpackedFloat

/-- The exponent at which `m * 2 ^ e` is rounded. -/
def target (m : Nat) (e : Int) : Int :=
  Format.binary64.targetExponent (totalExponent m e)

theorem target_eq (m : Nat) (e : Int) : target m e = max (m.log2 + e - 52) (-1074) := by
  show max ((m.log2 : Int) + 1 + e - 53) (-1074) = _
  omega

/-! ## Shifting -/

theorem mantissa_shiftRight (em : ExtendedMantissa) (k : Nat) :
    (em >>> k).mantissa = em.mantissa / 2 ^ k := by
  induction k with
  | zero =>
    rw [Nat.pow_zero, Nat.div_one]
    rfl
  | succ k ih =>
    show (em >>> k).mantissa / 2 = _
    rw [ih, Nat.div_div_eq_div_mul, Nat.pow_succ]

theorem roundedMantissa_bounds (em : ExtendedMantissa) :
    em.mantissa ≤ em.roundedMantissa ∧ em.roundedMantissa ≤ em.mantissa + 1 := by
  rcases em with ⟨m, _ | _, _ | _⟩
  · exact ⟨le_refl m, Nat.le_succ m⟩
  · exact ⟨le_refl m, Nat.le_succ m⟩
  · show m ≤ m + m % 2 ∧ m + m % 2 ≤ m + 1
    omega
  · exact ⟨Nat.le_succ m, le_refl _⟩

theorem shiftToTargetExponent_of_eq {m : Nat} {e : Int} {k : Nat}
    (hk : (target m e - e).toNat = k) :
    shiftToTargetExponent Format.binary64 m e .exact =
      (ExtendedMantissa.mk m false false >>> k, e + k) := by
  subst hk
  rfl

/-! ## The cut -/

/-- The mantissa of `m * 2 ^ e` cut at its target. -/
def cut (m : Nat) (e : Int) : Nat :=
  m / 2 ^ (target m e - e).toNat

theorem cut_lt {m : Nat} {e : Int} (he : e ≤ target m e) : cut m e < 2 ^ 53 := by
  have hlog : m.log2 + 1 ≤ 53 + (target m e - e).toNat := by
    have := target_eq m e
    omega
  rw [cut, Nat.div_lt_iff_lt_mul (Nat.two_pow_pos _), ← Nat.pow_add]
  exact Nat.lt_of_lt_of_le Nat.lt_log2_self (Nat.pow_le_pow_right (by decide) hlog)

theorem le_cut {m : Nat} {e : Int} (hm : 0 < m) (he : e ≤ target m e)
    (ht : target m e ≠ -1074) : 2 ^ 52 ≤ cut m e := by
  have hlog : 52 + (target m e - e).toNat ≤ m.log2 := by
    have := target_eq m e
    omega
  rw [cut, Nat.le_div_iff_mul_le (Nat.two_pow_pos _), ← Nat.pow_add]
  exact (Nat.pow_le_pow_right (by decide) hlog).trans (Nat.log2_self_le (Nat.ne_of_gt hm))

theorem cut_pos {m : Nat} {e : Int} (hm : 0 < m) (hmin : -1074 ≤ e) (he : e ≤ target m e) :
    0 < cut m e := by
  by_cases ht : target m e = -1074
  · have hzero : (target m e - e).toNat = 0 := by omega
    rw [cut, hzero, Nat.pow_zero, Nat.div_one]
    exact hm
  · exact Nat.lt_of_lt_of_le (Nat.two_pow_pos 52) (le_cut hm he ht)

/-! ## Rounding -/

theorem target_le_of_lt {r : Nat} {t : Int} (hr : r < 2 ^ 53) (ht : -1074 ≤ t) :
    target r t ≤ t := by
  have hlog : r.log2 ≤ 52 := by
    by_cases hzero : r = 0
    · rw [hzero]
      decide
    · have := (Nat.log2_lt hzero).2 hr
      omega
  have := target_eq r t
  omega

theorem target_two_pow {t : Int} (ht : -1074 ≤ t) : target (2 ^ 53) t = t + 1 := by
  have := target_eq (2 ^ 53) t
  rw [Nat.log2_two_pow] at this
  omega

/-- Rounding at the target or above ends in a canonical pair not below the cut. -/
theorem roundWithAccuracy_exact (s : Sign) {m : Nat} {e : Int} (hm : 0 < m) (hmin : -1074 ≤ e)
    (he : e ≤ target m e) :
    ∃ r t, ∃ hr : 0 < r, roundWithAccuracy Format.binary64 s m e .exact = .finite s r t hr ∧
      Canonical r t ∧ (target m e < t ∨ target m e = t ∧ cut m e ≤ r) := by
  have hlt := cut_lt he
  have hpos := cut_pos hm hmin he
  have hte : e + ((target m e - e).toNat : Int) = target m e := by omega
  obtain ⟨hlow, hhigh⟩ := roundedMantissa_bounds
    (ExtendedMantissa.mk m false false >>> (target m e - e).toNat)
  rw [mantissa_shiftRight] at hlow hhigh
  change cut m e ≤ _ at hlow
  change _ ≤ cut m e + 1 at hhigh
  rw [roundWithAccuracy, shiftToTargetExponent_of_eq rfl, hte]
  dsimp only
  generalize ExtendedMantissa.roundedMantissa _ = r at hlow hhigh ⊢
  have ht : -1074 ≤ target m e := by omega
  have hr : 0 < r := Nat.lt_of_lt_of_le hpos hlow
  have hcan : 2 ^ 52 ≤ r ∨ target m e = -1074 := by
    by_cases hmin' : target m e = -1074
    · exact Or.inr hmin'
    · exact Or.inl ((le_cut hm he hmin').trans hlow)
  rcases Nat.lt_or_ge r (2 ^ 53) with hfits | hover
  · have hk : (target r (target m e) - target m e).toNat = 0 := by
      have := target_le_of_lt hfits ht
      omega
    rw [shiftToTargetExponent_of_eq hk]
    refine ⟨r, target m e, hr, ?_, ⟨hfits, ht, hcan⟩, Or.inr ⟨rfl, hlow⟩⟩
    exact (dif_neg (Nat.ne_of_gt hr)).trans (finite_congr rfl (Int.add_zero _))
  · -- the mantissa overflows by one place
    have hover_eq : r = 2 ^ 53 := by omega
    subst hover_eq
    have hk : (target (2 ^ 53) (target m e) - target m e).toNat = 1 := by
      rw [target_two_pow ht]
      omega
    rw [shiftToTargetExponent_of_eq hk]
    refine ⟨2 ^ 52, target m e + 1, by decide, ?_, ⟨by decide, by omega, Or.inl (le_refl _)⟩,
      Or.inl (by omega)⟩
    exact dif_neg (show ¬2 ^ 53 / 2 = 0 by decide)

theorem round_positive {m : Nat} {e : Int} (hm : 0 < m) (hmin : -1074 ≤ e)
    (he : e ≤ target m e) :
    ∃ r t, ∃ hr : 0 < r, UnpackedFloat.round Format.binary64 .positive m e =
      .finite .positive r t hr ∧ Canonical r t ∧
      (target m e < t ∨ target m e = t ∧ cut m e ≤ r) := by
  have hk : (e - target m e).toNat = 0 := by omega
  have hround : UnpackedFloat.round Format.binary64 .positive m e =
      roundWithAccuracy Format.binary64 .positive m e .exact := by
    show roundWithAccuracy Format.binary64 .positive (m <<< (e - target m e).toNat)
      (e - (e - target m e).toNat) .exact = _
    rw [hk, Nat.shiftLeft_zero, Int.natCast_zero, Int.sub_zero]
  rw [hround]
  exact roundWithAccuracy_exact .positive hm hmin he

end PriceAction.Floating
