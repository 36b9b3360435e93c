import Mathlib.Algebra.Order.Ring.Nat
import Mathlib.Order.Basic
import Mathlib.Tactic.Positivity
import PriceAction.Scalar.Floating

/-!
# Packed floating-point numbers

A finite number is stored with a mantissa below `2 ^ 53`, which reaches `2 ^ 52` unless the
exponent is the least one (`Canonical`). Such a pair is read back as it was stored, or as infinity
when the exponent is too large.
-/

namespace PriceAction.Floating

open Float.Model Float.Model.UnpackedFloat

/-- Whether a mantissa and an exponent are stored as they are, if the exponent is not too large. -/
def Canonical (m : Nat) (e : Int) : Prop :=
  m < 2 ^ 53 ∧ -1074 ≤ e ∧ (2 ^ 52 ≤ m ∨ e = -1074)

/-! ## Reading -/

/-- The number with a sign, an exponent field and a mantissa field. -/
def ofFields (s : Sign) (exponent : BitVec 11) (mantissa : BitVec 52) : UnpackedFloat :=
  if exponent = -1#11 then
    if mantissa = 0#52 then .infinity s else .notANumber
  else if exponent = 0#11 then
    if h : mantissa = 0#52 then .zero s
    else .finite s mantissa.toNat (-1074) ((BitVec.toNat_pos _).2 ((BitVec.pos_iff_ne_zero _).2 h))
  else .finite s (2 ^ 52 + mantissa.toNat) (exponent.toNat - 1075) (by positivity)

theorem toNat_implicit_append (v : BitVec 52) : (1#1 ++ v).toNat = 2 ^ 52 + v.toNat := by
  rw [BitVec.toNat_append, ← Nat.shiftLeft_add_eq_or_of_lt v.isLt]
  rfl

theorem finite_congr {s : Sign} {m m' : Nat} {e e' : Int} {hm : 0 < m} {hm' : 0 < m'}
    (h : m = m') (he : e = e') : UnpackedFloat.finite s m e hm = .finite s m' e' hm' := by
  subst h he
  rfl

theorem unpack_eq_ofFields (b : BitVec 64) :
    UnpackedFloat.unpack Format.binary64 b =
      ofFields (Sign.ofBitVec (@unpackSign Format.binary64 b))
        (@unpackExponent Format.binary64 b) (@unpackMantissa Format.binary64 b) := by
  delta UnpackedFloat.unpack ofFields
  refine ite_congr rfl (fun _ => rfl) fun _ => ite_congr rfl (fun hzero => ?_) fun _ => ?_
  · refine dite_congr rfl (fun _ => rfl) fun _ => finite_congr rfl ?_
    rw [hzero]
    rfl
  · exact finite_congr (toNat_implicit_append _) rfl

theorem toNat_ne_of_ne {v w : BitVec 11} (h : v ≠ w) : v.toNat ≠ w.toNat :=
  fun hv => h (BitVec.eq_of_toNat_eq hv)

theorem canonical_of_ofFields {s s' : Sign} {exponent : BitVec 11} {mantissa : BitVec 52} {m : Nat}
    {e : Int} {hm : 0 < m} (h : ofFields s exponent mantissa = .finite s' m e hm) :
    Canonical m e ∧ e ≤ 971 := by
  have hman := mantissa.isLt
  have hexp := exponent.isLt
  rw [ofFields] at h
  by_cases hinf : exponent = -1#11
  · rw [if_pos hinf] at h
    by_cases hempty : mantissa = 0#52
    · rw [if_pos hempty] at h
      cases h
    · rw [if_neg hempty] at h
      cases h
  rw [if_neg hinf] at h
  by_cases hzero : exponent = 0#11
  · rw [if_pos hzero] at h
    by_cases hempty : mantissa = 0#52
    · rw [dif_pos hempty] at h
      cases h
    · rw [dif_neg hempty] at h
      cases h
      exact ⟨⟨by omega, by omega, Or.inr rfl⟩, by omega⟩
  · rw [if_neg hzero] at h
    cases h
    have htop : exponent.toNat ≠ 2047 := toNat_ne_of_ne hinf
    have hpos : exponent.toNat ≠ 0 := toNat_ne_of_ne hzero
    exact ⟨⟨by omega, by omega, Or.inl (by omega)⟩, by omega⟩

theorem canonical_of_unpack {v : Float.Model} {s : Sign} {m : Nat} {e : Int} {hm : 0 < m}
    (h : v.unpack = .finite s m e hm) : Canonical m e ∧ e ≤ 971 := by
  rw [Float.Model.unpack, unpack_eq_ofFields] at h
  exact canonical_of_ofFields h

theorem ofFields_of_normal (s : Sign) {exponent : BitVec 11} {mantissa : BitVec 52}
    (hzero : exponent.toNat ≠ 0) (htop : exponent.toNat ≠ 2047) {m : Nat} {e : Int} (hm : 0 < m)
    (hman : 2 ^ 52 + mantissa.toNat = m) (hexp : exponent.toNat - 1075 = e) :
    ofFields s exponent mantissa = .finite s m e hm := by
  have hne_top : exponent ≠ -1#11 := fun h => htop (congrArg BitVec.toNat h)
  have hne_zero : exponent ≠ 0#11 := fun h => hzero (congrArg BitVec.toNat h)
  rw [ofFields, if_neg hne_top, if_neg hne_zero]
  exact finite_congr hman hexp

theorem ofFields_of_subnormal (s : Sign) {mantissa : BitVec 52} {m : Nat} (hm : 0 < m)
    (hman : mantissa.toNat = m) : ofFields s 0#11 mantissa = .finite s m (-1074) hm := by
  have hne : mantissa ≠ 0#52 := by
    intro h
    rw [h] at hman
    exact absurd hman (ne_of_lt hm)
  rw [ofFields, if_neg (by decide), if_pos rfl, dif_neg hne]
  exact finite_congr hman rfl

/-! ## Writing and reading back -/

theorem unpackSign_packComponents {spec : Format} (s : Sign) (exponent : BitVec spec.exponentBits)
    (mantissa : BitVec spec.mantissaBitsWithoutImplicit) :
    unpackSign (packComponents spec s exponent mantissa) = s.toBitVec := by
  apply BitVec.eq_of_getLsbD_eq
  intro i hi
  have hzero : i = 0 := by omega
  subst hzero
  delta unpackSign packComponents
  simp [BitVec.getLsbD_append, BitVec.getElem_append]

theorem ofBitVec_toBitVec (s : Sign) : Sign.ofBitVec s.toBitVec = s := by
  cases s <;> rfl

theorem unpack_packComponents (s : Sign) (exponent : BitVec 11) (mantissa : BitVec 52) :
    UnpackedFloat.unpack Format.binary64 (packComponents Format.binary64 s exponent mantissa) =
      ofFields s exponent mantissa := by
  rw [unpack_eq_ofFields, unpackSign_packComponents, ofBitVec_toBitVec,
    unpackExponent_packComponents, unpackMantissa_packComponents]

theorem unpack_pack_infinity (s : Sign) : (Float.Model.pack (.infinity s)).unpack = .infinity s :=
  unpack_packComponents s (-1#11) 0#52

theorem pack_finite (s : Sign) {m : Nat} (e : Int) (hm : 0 < m) :
    UnpackedFloat.pack Format.binary64 (.finite s m e hm) =
      if 2 ^ 11 ≤ (e + 1023 + 52).toNat + 1 then packComponents Format.binary64 s (-1#11) 0#52
      else if m.log2 + 1 = 53 then
        packComponents Format.binary64 s (BitVec.ofNat 11 (e + 1023 + 52).toNat) (BitVec.ofNat 52 m)
      else packComponents Format.binary64 s 0#11 (BitVec.ofNat 52 m) :=
  rfl

/-- A canonical pair is read back, unless its exponent is too large for a finite number. -/
theorem unpack_pack_finite (s : Sign) {m : Nat} {e : Int} (hm : 0 < m) (h : Canonical m e) :
    (Float.Model.pack (.finite s m e hm)).unpack =
      if e ≤ 971 then .finite s m e hm else .infinity s := by
  obtain ⟨hlt, hmin, hcan⟩ := h
  show UnpackedFloat.unpack Format.binary64 (UnpackedFloat.pack Format.binary64 _) = _
  rw [pack_finite]
  by_cases hmax : e ≤ 971
  · rw [if_pos hmax, if_neg (by omega)]
    by_cases hnormal : 2 ^ 52 ≤ m
    · have hlog : m.log2 = 52 := by
        rw [Nat.log2_eq_iff (by omega)]
        exact ⟨hnormal, hlt⟩
      have hexp : (BitVec.ofNat 11 (e + 1023 + 52).toNat).toNat = (e + 1075).toNat := by
        rw [BitVec.toNat_ofNat]
        omega
      have hman : (BitVec.ofNat 52 m).toNat = m - 2 ^ 52 := by
        rw [BitVec.toNat_ofNat]
        omega
      rw [if_pos (by rw [hlog]), unpack_packComponents]
      apply ofFields_of_normal
      · exact ne_of_eq_of_ne hexp (by omega)
      · exact ne_of_eq_of_ne hexp (by omega)
      · rw [hman]
        omega
      · refine (congrArg (fun n : Nat => (n : Int) - 1075) hexp).trans ?_
        omega
    · have hlog := (Nat.log2_lt (Nat.ne_of_gt hm)).2 (Nat.not_le.1 hnormal)
      rw [if_neg (by omega), unpack_packComponents]
      have hmin_eq : e = -1074 := hcan.resolve_left hnormal
      subst hmin_eq
      apply ofFields_of_subnormal
      rw [BitVec.toNat_ofNat]
      omega
  · rw [if_neg hmax, if_pos (by omega)]
    exact unpack_packComponents s (-1#11) 0#52

end PriceAction.Floating
