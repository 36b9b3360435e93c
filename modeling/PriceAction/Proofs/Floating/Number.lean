import PriceAction.Proofs.Floating.Order
import PriceAction.Proofs.Floating.Packing

/-!
# Floating-point values that are numbers

A value is a number if it has a rank, that is, if it is at or below itself. Of a number and another
value, either the number is at or below the value, or the value is below the number or no number
(`not_le_iff`). The distance of two finite numbers is a number (`le_self_abs_sub`).
-/

namespace PriceAction.Floating

open Float.Model Float.Model.UnpackedFloat

/-! ## Comparing with a number -/

variable {a b : Float}

theorem le_self_iff : a ≤ a ↔ ∃ x, rankOf? a = some x := by
  rw [le_iff]
  constructor
  · rintro ⟨x, hx, -⟩
    exact ⟨x, hx⟩
  · rintro ⟨x, hx⟩
    exact ⟨x, hx, x, hx, Rank.Below.irrefl x⟩

theorem not_le_iff (ha : a ≤ a) : ¬a ≤ b ↔ b < a ∨ ¬b ≤ b := by
  obtain ⟨x, hx⟩ := le_self_iff.1 ha
  rw [le_self_iff, le_iff, lt_iff, hx]
  cases hb : rankOf? b with
  | none => simp
  | some y => simp

/-! ## Results that are numbers -/

/-- What holds of both infinities, zeros and finite numbers of a sign holds of what is read with that
sign, if it is a number. -/
theorem ofFields_cases {p : UnpackedFloat → Prop} {s : Sign} {exponent : BitVec 11}
    {mantissa : BitVec 52} (h : exponent = -1#11 → mantissa = 0#52) (hinfinite : p (.infinity s))
    (hzero : p (.zero s)) (hfinite : ∀ m e hm, p (.finite s m e hm)) :
    p (ofFields s exponent mantissa) := by
  rw [ofFields]
  by_cases htop : exponent = -1#11
  · rw [if_pos htop, if_pos (h htop)]
    exact hinfinite
  rw [if_neg htop]
  by_cases hlow : exponent = 0#11
  · rw [if_pos hlow]
    by_cases hempty : mantissa = 0#52
    · rw [dif_pos hempty]
      exact hzero
    · rw [dif_neg hempty]
      exact hfinite ..
  · rw [if_neg hlow]
    exact hfinite ..

theorem exists_fields_of_finite (s : Sign) {m : Nat} (e : Int) (hm : 0 < m) :
    ∃ exponent mantissa, (Float.Model.pack (.finite s m e hm)).unpack =
      ofFields s exponent mantissa ∧ (exponent = -1#11 → mantissa = 0#52) := by
  show ∃ exponent mantissa,
    UnpackedFloat.unpack Format.binary64 (UnpackedFloat.pack Format.binary64 _) = _ ∧ _
  rw [pack_finite]
  by_cases hlarge : 2 ^ 11 ≤ (e + 1023 + 52).toNat + 1
  · rw [if_pos hlarge]
    exact ⟨-1#11, 0#52, unpack_packComponents s (-1#11) 0#52, fun _ => rfl⟩
  rw [if_neg hlarge]
  by_cases hnormal : m.log2 + 1 = 53
  · rw [if_pos hnormal]
    refine ⟨_, _, unpack_packComponents s _ _, fun heq => absurd ?_ hlarge⟩
    have hvalue : (e + 1023 + 52).toNat % 2 ^ 11 = 2047 :=
      (BitVec.toNat_ofNat ..).symm.trans (congrArg BitVec.toNat heq)
    omega
  · rw [if_neg hnormal]
    exact ⟨_, _, unpack_packComponents s _ _, fun heq => absurd heq (by decide)⟩

theorem unpack_pack_ne {u : UnpackedFloat} (h : u ≠ .notANumber) :
    (Float.Model.pack u).unpack ≠ .notANumber := by
  cases u with
  | notANumber => exact absurd rfl h
  | infinity s =>
    rw [unpack_pack_infinity]
    nofun
  | zero s =>
    show UnpackedFloat.unpack Format.binary64 (packComponents Format.binary64 s 0#11 0#52) ≠ _
    rw [unpack_packComponents]
    exact ofFields_cases (p := (· ≠ .notANumber)) (fun _ => rfl) nofun nofun nofun
  | finite s m e hm =>
    obtain ⟨exponent, mantissa, hfields, htop⟩ := exists_fields_of_finite s e hm
    rw [hfields]
    exact ofFields_cases (p := (· ≠ .notANumber)) htop nofun nofun nofun

theorem roundWithAccuracy_cases {p : UnpackedFloat → Prop} {spec : Format} {s : Sign} {m : Nat}
    {e : Int} {accuracy : Accuracy} (hzero : p (.zero s)) (hfinite : ∀ m e hm, p (.finite s m e hm)) :
    p (roundWithAccuracy spec s m e accuracy) := by
  let cut := shiftToTargetExponent spec m e accuracy
  let fitted := shiftToTargetExponent spec cut.1.roundedMantissa cut.2 .exact
  by_cases hempty : fitted.1.mantissa = 0
  · exact cast (congrArg p (dif_pos hempty).symm) hzero
  · exact cast (congrArg p (dif_neg hempty).symm) (hfinite ..)

theorem normalize_ne (spec : Format) (m e : Int) (s : Sign) :
    UnpackedFloat.normalize spec m e s ≠ .notANumber := by
  rw [UnpackedFloat.normalize]
  split
  · exact roundWithAccuracy_cases (p := (· ≠ .notANumber)) nofun nofun
  · nofun
  · exact roundWithAccuracy_cases (p := (· ≠ .notANumber)) nofun nofun

theorem sub_ne {u v : UnpackedFloat} (hu : u.isFinite = true) (hv : v.isFinite = true) :
    UnpackedFloat.sub Format.binary64 u v ≠ .notANumber := by
  rcases u with _ | _ | s | ⟨s, m, e, hm⟩ <;> cases hu <;>
    rcases v with _ | _ | s' | ⟨s', m', e', hm'⟩ <;> cases hv
  · by_cases hsign : (s == -s') = true
    · exact ne_of_eq_of_ne (if_pos hsign) nofun
    · exact ne_of_eq_of_ne (if_neg hsign) nofun
  · nofun
  · nofun
  · exact normalize_ne _ _ _ _

theorem abs_ne {u : UnpackedFloat} (h : u ≠ .notANumber) : u.abs ≠ .notANumber := by
  cases u with
  | notANumber => exact absurd rfl h
  | infinity s => nofun
  | zero s => nofun
  | finite s m e hm => nofun

theorem exists_rank?_of_ne {u : UnpackedFloat} (h : u ≠ .notANumber) : ∃ x, rank? u = some x := by
  rcases u with (_ | _) | _ | (_ | _) | ⟨_ | _, m, e, hm⟩
  all_goals first
    | exact ⟨_, rfl⟩
    | exact absurd rfl h

/-- The distance of two finite numbers is a number, if only the infinite one. -/
theorem le_self_abs_sub (ha : Scalar.isFinite a = true) (hb : Scalar.isFinite b = true) :
    Scalar.abs (a - b) ≤ Scalar.abs (a - b) := by
  have hdistance : rankOf? (Scalar.abs (a - b)) = rank? (Float.Model.pack (UnpackedFloat.abs
      (Float.Model.pack (UnpackedFloat.sub Format.binary64 a.toModel.unpack
        b.toModel.unpack)).unpack)).unpack := rfl
  rw [le_self_iff, hdistance]
  exact exists_rank?_of_ne (unpack_pack_ne (abs_ne (unpack_pack_ne (sub_ne ha hb))))

end PriceAction.Floating
