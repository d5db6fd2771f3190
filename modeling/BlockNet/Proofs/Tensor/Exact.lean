import Mathlib.Analysis.SpecialFunctions.Log.Basic
import Mathlib.Analysis.SpecialFunctions.Sqrt
import Mathlib.Analysis.SpecialFunctions.Trigonometric.DerivHyp
import BlockNet.Tensor.Scalar

/-! # Exact arithmetic

Layers, losses and watchers compute with any scalars. With the real numbers for scalars nothing is
rounded, so what is shown of them is shown of the formulas. -/

namespace BlockNet

/-- The real number that a double stands for, zero for a double that stands for none. -/
noncomputable def Binary.toReal (b : Binary) : ℝ :=
  b.fraction?.elim 0 fun (num, den) => num / den

/-- A finite double that is as near to a real number as any. -/
noncomputable def doubleOfReal (x : ℝ) : Float :=
  Classical.epsilon fun y => (Binary.ofFloat y).fraction?.isSome ∧
    ∀ z, (Binary.ofFloat z).fraction?.isSome →
      |(Binary.ofFloat y).toReal - x| ≤ |(Binary.ofFloat z).toReal - x|

/-- The whole number that a real number is cut to. What does not fit into 64 bits becomes the
smallest of them. -/
noncomputable def wordOfReal (x : ℝ) : Int :=
  let n := if 0 ≤ x then ⌊x⌋ else ⌈x⌉
  if (Int64.ofInt n).toInt = n then n else Int64.minValue.toInt

open Classical in
noncomputable instance : Scalar ℝ where
  ofInt n := n
  ofFloat x := (Binary.ofFloat x).toReal
  toFloat := doubleOfReal
  truncated := wordOfReal
  exp := Real.exp
  log := Real.log
  sqrt := Real.sqrt
  tanh := Real.tanh
  less x y := decide (x < y)
  same x y := decide (x = y)

namespace Scalar

variable (x y : ℝ)

@[simp]
theorem ofInt_real (n : Int) : (ofInt n : ℝ) = n := rfl

@[simp]
theorem one_real : (one : ℝ) = 1 := by simp [one]

@[simp]
theorem exp_real : Scalar.exp x = Real.exp x := rfl

@[simp]
theorem log_real : Scalar.log x = Real.log x := rfl

@[simp]
theorem sqrt_real : Scalar.sqrt x = Real.sqrt x := rfl

@[simp]
theorem less_real : less x y = true ↔ x < y := decide_eq_true_iff

@[simp]
theorem less_real_eq_false : less x y = false ↔ y ≤ x := by
  rw [← Bool.not_eq_true, less_real, not_lt]

@[simp]
theorem same_real : same x y = true ↔ x = y := decide_eq_true_iff

@[simp]
theorem isFinite_real : isFinite x = true := by simp [isFinite]

@[simp]
theorem atMost_real : atMost x y = true ↔ x ≤ y := by simp [atMost, le_iff_lt_or_eq]

@[simp]
theorem square_real : square x = x ^ 2 := (sq x).symm

@[simp]
theorem magnitude_real : magnitude x = |x| := by
  by_cases h : 0 < x
  · rw [magnitude, if_pos ((less_real 0 x).mpr h), abs_of_pos h]
  · rw [magnitude, if_neg (mt (less_real 0 x).mp h), abs_of_nonpos (not_lt.mp h), zero_sub]

theorem sum_real (n : ℕ) (f : ℕ → ℝ) : sum n f = ∑ i ∈ Finset.range n, f i := by
  rw [sum]
  induction n with
  | zero => rfl
  | succ n ih => rw [Nat.fold_succ, ih, Finset.sum_range_succ]

end Scalar

end BlockNet
