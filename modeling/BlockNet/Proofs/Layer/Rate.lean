import BlockNet.Layer.Attention
import BlockNet.Proofs.Value.Order

/-! # Rates as doubles

The schemas let a rate through that is neither below its least nor above its greatest value. A
double that compares with nothing is let through as well, but no shares can be dropped at it. -/

namespace BlockNet.Attention

open Float.Model

variable {α : Type} [Scalar α]

/-- Shares can be dropped at a rate of zero, and at rates above zero up to one. -/
def Allowed (rate : α) : Prop :=
  Scalar.same rate 0 = true ∨ (isThinned rate && Scalar.atMost rate Scalar.one) = true

theorem allowed_zero : Allowed (0 : Float) := .inl (by decide)

/-! ## Doubles in parts -/

theorem unpack_zero : (0.0 : Float).toModel.unpack = .zero .positive := rfl

theorem unpack_one : (Scalar.one : Float).toModel.unpack =
    .finite .positive 4503599627370496 (-52) (by decide) := rfl

theorem unpack_highest : (0.99 : Float).toModel.unpack =
    .finite .positive 8917127262193582 (-53) (by decide) := rfl

/-- Positive doubles are compared by their exponents first. -/
theorem lt_eq_compare {m n : Nat} {e f : Int} (hm : 0 < m) (hn : 0 < n) :
    (UnpackedFloat.finite .positive m e hm).lt (.finite .positive n f hn) =
      (some ((compare e f).then (compare m n)) == some .lt) := rfl

theorem allowed_iff {x : Float} : Allowed x ↔
    (x == 0.0) = true ∨ 0.0 < x ∧ (x < Scalar.one ∨ (x == Scalar.one) = true) := by
  change (x == 0.0) = true ∨
    (decide (0.0 < x) && (decide (x < Scalar.one) || x == Scalar.one)) = true ↔ _
  simp

/-- Within the bounds of the schema shares can be dropped at every rate that is a number. -/
theorem allowed_iff_not_nan {x : Float} (hlow : ¬x < 0.0) (hhigh : ¬(0.99 : Float) < x) :
    Allowed x ↔ x.isNaN = false := by
  have hnan : x.isNaN = x.toModel.unpack.isNaN := rfl
  rw [allowed_iff, hnan, beq_eq_unpack, beq_eq_unpack, lt_iff_unpack, lt_iff_unpack, unpack_zero,
    unpack_one]
  rw [lt_iff_unpack, unpack_zero, Bool.not_eq_true] at hlow
  rw [lt_iff_unpack, unpack_highest, Bool.not_eq_true] at hhigh
  cases hx : x.toModel.unpack with
  | notANumber =>
      refine iff_of_false ?_ nofun
      rintro (hzero | ⟨hpositive, -⟩)
      · cases hzero
      · cases hpositive
  | zero sign => exact iff_of_true (.inl rfl) rfl
  | infinity sign =>
      rw [hx] at hlow hhigh
      cases sign with
      | positive => cases hhigh
      | negative => cases hlow
  | finite sign m e hm =>
      rw [hx] at hlow hhigh
      cases sign with
      | positive =>
          have hexponent : ¬(-53 : Int) < e := by
            intro hlt
            rw [lt_eq_compare, Std.compare_eq_lt.mpr hlt] at hhigh
            cases hhigh
          have hless : compare e (-52) = .lt := Std.compare_eq_lt.mpr (by omega)
          refine iff_of_true (.inr ⟨rfl, .inl ?_⟩) rfl
          rw [lt_eq_compare, hless]
          rfl
      | negative => cases hlow

end BlockNet.Attention
