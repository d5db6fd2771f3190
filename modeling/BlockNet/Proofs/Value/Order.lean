import BlockNet.Proofs.Decimal.Parts
import BlockNet.Value.Number

/-! # The order of numbers

Two doubles compare by their parts, and they compare the other way round when they change places.
Numbers of all kinds compare by what they stand for. A number that is not below another is at least
as large, unless one of the two is no number. -/

namespace BlockNet

open Float.Model

theorem lt_iff_unpack {x y : Float} : x < y ↔ x.toModel.unpack.lt y.toModel.unpack = true := by
  change decide (x.toModel < y.toModel) = true ↔ _
  rw [decide_eq_true_iff]
  rfl

theorem beq_eq_unpack (x y : Float) : (x == y) = x.toModel.unpack.beq y.toModel.unpack := rfl

theorem compare_then_swap (m n : Nat) (e f : Int) :
    (compare f e).then (compare n m) = ((compare e f).then (compare m n)).swap := by
  rw [Ordering.swap_then, ← Std.OrientedCmp.eq_swap, ← Std.OrientedCmp.eq_swap]

theorem compare_unpack_swap (a b : UnpackedFloat) :
    b.compare a = (a.compare b).map Ordering.swap := by
  cases a with
  | notANumber => cases b <;> rfl
  | infinity s => cases s <;> rcases b with (_ | _) | _ | (_ | _) | ⟨_ | _⟩ <;> rfl
  | zero s => cases s <;> rcases b with (_ | _) | _ | (_ | _) | ⟨_ | _⟩ <;> rfl
  | finite s m e hm =>
      cases b with
      | finite t n f hn =>
          cases s <;> cases t
          · exact congrArg (fun o => some (Ordering.swap o)) (compare_then_swap m n e f)
          · rfl
          · rfl
          · exact congrArg some (compare_then_swap m n e f)
      | notANumber => cases s <;> rfl
      | infinity t => cases s <;> cases t <;> rfl
      | zero t => cases s <;> rfl

theorem compare_unpack_eq_none_iff {a b : UnpackedFloat} :
    a.compare b = none ↔ a.isNaN = true ∨ b.isNaN = true := by
  rcases a with (_ | _) | _ | (_ | _) | ⟨_ | _⟩ <;> rcases b with (_ | _) | _ | (_ | _) | ⟨_ | _⟩ <;>
    simp [UnpackedFloat.compare, UnpackedFloat.isNaN]

namespace Binary

theorem ofFloat_eq_nan_iff {x : Float} : ofFloat x = .nan ↔ x.isNaN = true := by
  have hparts : x.isNaN = x.toModel.unpack.isNaN := rfl
  rw [ofFloat_eq, hparts]
  cases x.toModel.unpack <;> simp [ofParts, UnpackedFloat.isNaN]

theorem compareInt_eq_none_iff {b : Binary} {n : Int} : b.compareInt n = none ↔ b = .nan := by
  cases b <;> simp [compareInt, fraction?]

end Binary

namespace Number

/-- Is the number a double that is no number? -/
def isNaN : Number → Bool
  | .real x => x.isNaN
  | _ => false

theorem compare_real (x y : Float) :
    compare (.real x) (.real y) = x.toModel.unpack.compare y.toModel.unpack := by
  have hswap := compare_unpack_swap x.toModel.unpack y.toModel.unpack
  simp only [compare, lt_iff_unpack, beq_eq_unpack, UnpackedFloat.lt, UnpackedFloat.beq, hswap]
  rcases x.toModel.unpack.compare y.toModel.unpack with _ | _ | _ | _ <;> rfl

theorem compare_swap (a b : Number) : b.compare a = (a.compare b).map Ordering.swap := by
  cases a with
  | real x =>
      cases b with
      | real y => rw [compare_real, compare_real, compare_unpack_swap]
      | _ => rfl
  | _ =>
      cases b with
      | real y => simp [compare, Function.comp_def]
      | _ => exact congrArg some Std.OrientedCmp.eq_swap

theorem compare_eq_none_iff {a b : Number} :
    a.compare b = none ↔ a.isNaN = true ∨ b.isNaN = true := by
  cases a with
  | real x =>
      cases b with
      | real y =>
          rw [compare_real, compare_unpack_eq_none_iff]
          rfl
      | _ => simp [compare, Binary.compareInt_eq_none_iff, Binary.ofFloat_eq_nan_iff, isNaN]
  | _ =>
      cases b with
      | real y => simp [compare, Binary.compareInt_eq_none_iff, Binary.ofFloat_eq_nan_iff, isNaN]
      | _ => simp [compare, isNaN]

/-- A number is at most another just when the other is not below it and both are numbers. -/
theorem le_iff {a b : Number} :
    a.le b = true ↔ b.lt a = false ∧ a.isNaN = false ∧ b.isNaN = false := by
  have hnone := compare_eq_none_iff (a := a) (b := b)
  rw [← not_iff_not, not_or, Bool.not_eq_true, Bool.not_eq_true] at hnone
  rw [le, lt, compare_swap a b, ← hnone]
  rcases a.compare b with _ | _ | _ | _ <;> decide

/-- A number is below another just when the other is not at most as large and both are numbers. -/
theorem lt_iff {a b : Number} :
    a.lt b = true ↔ b.le a = false ∧ a.isNaN = false ∧ b.isNaN = false := by
  have hnone := compare_eq_none_iff (a := a) (b := b)
  rw [← not_iff_not, not_or, Bool.not_eq_true, Bool.not_eq_true] at hnone
  rw [lt, le, compare_swap a b, ← hnone]
  rcases a.compare b with _ | _ | _ | _ <;> decide

@[simp]
theorem isNaN_whole (n : Int) : (whole n).isNaN = false := rfl

end Number

end BlockNet
