import PriceAction.Proofs.Floating.Number
import PriceAction.Proofs.Floating.Sum

/-!
# Bounds of floating-point values

Every finite number lies between the largest one and its negative (`le_largest`, `neg_largest_le`),
and has no distance from itself (`abs_sub_self_le`). A product of numbers that are not negative is
not negative, unless it is infinity times zero (`nonneg_mul`).
-/

namespace PriceAction.Floating

open Float.Model Float.Model.UnpackedFloat

variable {a b : Float}

/-! ## The largest number -/

/-- The largest finite number. -/
def largest : Float := 1.7976931348623157e308

theorem isFinite_largest : Scalar.isFinite largest = true := by decide +kernel

theorem isFinite_neg_largest : Scalar.isFinite (-largest) = true := by decide +kernel

theorem rankOf?_of_fields {size exponent mantissa : Int}
    (h : (rankOf? a).map (fun x => (x.size, x.exponent, x.mantissa)) =
      some (size, exponent, mantissa)) : rankOf? a = some ⟨size, exponent, mantissa⟩ := by
  obtain ⟨x, hx, hfields⟩ := Option.map_eq_some_iff.1 h
  obtain ⟨size', exponent', mantissa'⟩ := x
  cases hfields
  exact hx

theorem rankOf?_largest : rankOf? largest = some ⟨1, 971, 2 ^ 53 - 1⟩ :=
  rankOf?_of_fields (by decide +kernel)

theorem rankOf?_neg_largest : rankOf? (-largest) = some ⟨-1, -971, 1 - 2 ^ 53⟩ :=
  rankOf?_of_fields (by decide +kernel)

theorem exists_rank_of_isFinite (h : Scalar.isFinite a = true) :
    ∃ x, rankOf? a = some x ∧ (x.size = 0 ∨ ∃ m e : Int, m < 2 ^ 53 ∧ e ≤ 971 ∧
      (x.size = 1 ∧ x.exponent = e ∧ x.mantissa = m ∨
        x.size = -1 ∧ x.exponent = -e ∧ x.mantissa = -m)) := by
  have hfinite : a.toModel.unpack.isFinite = true := h
  rw [rankOf?]
  rcases hunpack : a.toModel.unpack with _ | _ | s | ⟨_ | _, m, e, hm⟩ <;> rw [hunpack] at hfinite
  · cases hfinite
  · cases hfinite
  · exact ⟨_, rfl, .inl rfl⟩
  · obtain ⟨⟨hlt, -, -⟩, hmax⟩ := canonical_of_unpack hunpack
    exact ⟨_, rfl, .inr ⟨m, e, by omega, hmax, .inr ⟨rfl, rfl, rfl⟩⟩⟩
  · obtain ⟨⟨hlt, -, -⟩, hmax⟩ := canonical_of_unpack hunpack
    exact ⟨_, rfl, .inr ⟨m, e, by omega, hmax, .inl ⟨rfl, rfl, rfl⟩⟩⟩

theorem le_largest (h : Scalar.isFinite a = true) : a ≤ largest := by
  obtain ⟨x, hx, hfinite⟩ := exists_rank_of_isFinite h
  refine le_iff.2 ⟨x, hx, _, rankOf?_largest, ?_⟩
  rw [Rank.Below]
  dsimp only
  rcases hfinite with hzero | ⟨m, e, hm, he, hfinite⟩ <;> omega

theorem neg_largest_le (h : Scalar.isFinite a = true) : -largest ≤ a := by
  obtain ⟨x, hx, hfinite⟩ := exists_rank_of_isFinite h
  refine le_iff.2 ⟨_, rankOf?_neg_largest, x, hx, ?_⟩
  rw [Rank.Below]
  dsimp only
  rcases hfinite with hzero | ⟨m, e, hm, he, hfinite⟩ <;> omega

/-! ## The distance from itself -/

theorem normalize_zero (e : Int) :
    UnpackedFloat.normalize Format.binary64 0 e .positive = .zero .positive := rfl

theorem sub_self {u : UnpackedFloat} (h : u.isFinite = true) :
    UnpackedFloat.sub Format.binary64 u u = .zero .positive := by
  rcases u with _ | _ | (_ | _) | ⟨s, m, e, hm⟩ <;> cases h
  · rfl
  · rfl
  · exact (congrArg (UnpackedFloat.normalize Format.binary64 · _ .positive)
      (Int.sub_self _)).trans (normalize_zero _)

theorem rankOf?_abs_sub_self (h : Scalar.isFinite a = true) :
    rankOf? (Scalar.abs (a - a)) = some ⟨0, 0, 0⟩ := by
  have hdistance : rankOf? (Scalar.abs (a - a)) = rank? (Float.Model.pack (UnpackedFloat.abs
      (Float.Model.pack (UnpackedFloat.sub Format.binary64 a.toModel.unpack
        a.toModel.unpack)).unpack)).unpack := rfl
  rw [hdistance, sub_self h]
  rfl

theorem abs_sub_self_le (ha : Scalar.isFinite a = true) (hb : 0.0 ≤ b) :
    Scalar.abs (a - a) ≤ b := by
  obtain ⟨x, hx, y, hy, hnot⟩ := le_iff.1 hb
  cases hx
  exact le_iff.2 ⟨_, rankOf?_abs_sub_self ha, y, hy, hnot⟩

/-! ## Products -/

/-- Whether an unpacked value is a number that is not negative. -/
def IsNonneg : UnpackedFloat → Prop
  | .notANumber => False
  | .infinity s => s = .positive
  | .zero _ => True
  | .finite s _ _ _ => s = .positive

theorem isNonneg_unpack_pack {u : UnpackedFloat} (h : IsNonneg u) :
    IsNonneg (Float.Model.pack u).unpack := by
  cases u with
  | notANumber => exact h.elim
  | infinity s =>
    rw [unpack_pack_infinity]
    exact h
  | zero s => cases s <;> trivial
  | finite s m e hm =>
    cases (show s = .positive from h)
    obtain ⟨exponent, mantissa, hfields, htop⟩ := exists_fields_of_finite .positive e hm
    rw [hfields]
    exact ofFields_cases htop rfl trivial fun _ _ _ => rfl

theorem isNonneg_iff : IsNonneg a.toModel.unpack ↔ 0.0 ≤ a := by
  constructor
  · intro h
    refine le_iff.2 ⟨⟨0, 0, 0⟩, rfl, ?_⟩
    rw [rankOf?]
    simp only [Rank.Below]
    generalize a.toModel.unpack = u at h
    rcases u with _ | (_ | _) | s | ⟨_ | _, m, e, hm⟩ <;> cases h
    all_goals exact ⟨_, rfl, by dsimp only; omega⟩
  · intro h
    rcases unpack_of_nonneg h with ⟨s, hzero⟩ | hinfinite | ⟨m, e, hm, hfinite⟩
    · rw [hzero]
      trivial
    · rw [hinfinite]
      rfl
    · rw [hfinite]
      rfl

theorem nonneg_mul (ha : 0.0 ≤ a) (hb : 0.0 ≤ b) (hfinite : Scalar.isFinite b = true)
    (h : Scalar.isFinite a = true ∨ 0.0 < b) : 0.0 ≤ a * b := by
  have hproduct : (a * b).toModel.unpack = (Float.Model.pack (UnpackedFloat.mul Format.binary64
      a.toModel.unpack b.toModel.unpack)).unpack := rfl
  have hb_finite : b.toModel.unpack.isFinite = true := hfinite
  rw [← isNonneg_iff, hproduct]
  apply isNonneg_unpack_pack
  rcases unpack_of_nonneg hb with ⟨t, hb⟩ | hb | ⟨n, f, hn, hb⟩ <;> rw [hb] at hb_finite ⊢
  · have ha_finite : a.toModel.unpack.isFinite = true := h.resolve_right fun hpos => by
      rcases unpack_of_pos hpos with hb' | ⟨n, f, hn, hb'⟩ <;> cases hb.symm.trans hb'
    rcases unpack_of_nonneg ha with ⟨s, ha⟩ | ha | ⟨m, e, hm, ha⟩ <;> rw [ha] at ha_finite ⊢
    · trivial
    · cases ha_finite
    · trivial
  · cases hb_finite
  · rcases unpack_of_nonneg ha with ⟨s, ha⟩ | ha | ⟨m, e, hm, ha⟩ <;> rw [ha]
    · trivial
    · rfl
    · exact roundWithAccuracy_cases trivial fun _ _ _ => rfl

/-! ## Distances from zero -/

theorem unpack_abs (h : Scalar.isFinite a = true) :
    (Scalar.abs a).toModel.unpack = a.toModel.unpack.abs := by
  have hfinite : a.toModel.unpack.isFinite = true := h
  have habs : (Scalar.abs a).toModel.unpack =
      (Float.Model.pack a.toModel.unpack.abs).unpack := rfl
  rw [habs]
  rcases hunpack : a.toModel.unpack with _ | _ | s | ⟨s, m, e, hm⟩ <;> rw [hunpack] at hfinite
  · cases hfinite
  · cases hfinite
  · exact unpack_packComponents .positive 0#11 0#52
  · obtain ⟨hcanonical, hmax⟩ := canonical_of_unpack hunpack
    exact (unpack_pack_finite .positive hm hcanonical).trans (if_pos hmax)

theorem isFinite_abs (h : Scalar.isFinite a = true) : Scalar.isFinite (Scalar.abs a) = true := by
  have hfinite : a.toModel.unpack.isFinite = true := h
  show (Scalar.abs a).toModel.unpack.isFinite = true
  rw [unpack_abs h]
  cases hunpack : a.toModel.unpack <;> rw [hunpack] at hfinite <;> exact hfinite

theorem abs_nonneg (h : Scalar.isFinite a = true) : 0.0 ≤ Scalar.abs a := by
  have hfinite : a.toModel.unpack.isFinite = true := h
  rw [← isNonneg_iff, unpack_abs h]
  cases hunpack : a.toModel.unpack with
  | notANumber => rw [hunpack] at hfinite; cases hfinite
  | infinity s => rfl
  | zero s => trivial
  | finite s m e hm => rfl

end PriceAction.Floating
