import BlockNet.Layer.Affine
import BlockNet.Proofs.Tensor.Place
import BlockNet.Proofs.Sample.Single

/-! # The entries of affine maps and activations

What activations and affine maps give is told entry by entry, as a formula in the entries that they
are given. -/

namespace BlockNet

variable {α : Type} [Scalar α]

/-! ## Shares -/

namespace Scalar

/-- The share of the `k`-th of `n` numbers in their exponentials, the largest number being taken off
all of them. -/
def softmax (n : Nat) (z : Nat → α) (k : Nat) : α :=
  exp (z k - largest (n - 1) z) / sum n fun u => exp (z u - largest (n - 1) z)

theorem sum_zero (hzero : (0 : α) + 0 = 0) (n : Nat) : sum n (fun _ => (0 : α)) = 0 := by
  induction n with
  | zero => rfl
  | succ n ih =>
      rw [sum] at ih ⊢
      rw [Nat.fold_succ, ih, hzero]

theorem sum_div {c : α} (hzero : 0 / c = 0) (hadd : ∀ a b : α, (a + b) / c = a / c + b / c)
    (n : Nat) (f : Nat → α) : sum n (fun k => f k / c) = sum n f / c := by
  induction n with
  | zero => exact hzero.symm
  | succ n ih =>
      rw [sum, sum] at ih ⊢
      rw [Nat.fold_succ, Nat.fold_succ, ih, hadd]

/-- Under the laws of the exponential function and of fractions it changes no share that a number
is taken off first. -/
theorem softmax_eq_share (n : Nat) (z : Nat → α) (k : Nat)
    (hexp : ∀ a b : α, exp (a - b) = exp a / exp b) (hzero : ∀ c : α, 0 / exp c = 0)
    (hadd : ∀ a b c : α, (a + b) / exp c = a / exp c + b / exp c)
    (hcancel : ∀ a b c : α, a / exp c / (b / exp c) = a / b) :
    softmax n z k = exp (z k) / sum n fun u => exp (z u) := by
  simp only [softmax, hexp]
  rw [sum_div (hzero _) fun a b => hadd a b _, hcancel]

end Scalar

namespace Activation

theorem shares_getD {n k : Nat} (hk : k < n) (f : Nat → α) :
    (shares n f).getD k 0 = Scalar.softmax n f k := by
  have htop : Scalar.largest (n - 1) (fun u => (Tensor.row n f).getD u 0) =
      Scalar.largest (n - 1) f :=
    Scalar.largest_congr fun u hu => Tensor.getD_row f (by omega) 0
  have hexps : ∀ top : α, (Tensor.row n f).map (fun x => Scalar.exp (x - top)) =
      Tensor.row n fun u => Scalar.exp (f u - top) := by
    intro top
    simp [Tensor.row, Function.comp_def]
  have hshare : ∀ total : α, ∀ g : Nat → α, ((Tensor.row n g).map (· / total)).getD k 0 =
      g k / total := by
    intro total g
    simp [Tensor.row, hk]
  rw [shares, htop, hexps, hshare, Scalar.softmax]
  exact congrArg _ (Scalar.sum_congr fun u hu => Tensor.getD_row _ hu 0)

/-- The activation of the `k`-th of `n` numbers in a row. -/
def value (a : Activation) (n : Nat) (z : Nat → α) (k : Nat) : α :=
  match a with
  | .relu => rectified (z k)
  | .sigmoid => Scalar.sigmoid (z k)
  | .tanh => Scalar.tanh (z k)
  | .softmax => Scalar.softmax n z k
  | .linear => z k

theorem value_congr (a : Activation) {n k : Nat} (hk : k < n) {f g : Nat → α}
    (h : ∀ u < n, f u = g u) : a.value n f k = a.value n g k := by
  cases a with
  | softmax => rw [value, value, ← shares_getD hk, ← shares_getD hk, shares_congr h]
  | _ => simp only [value, h k hk]

theorem dims_of_apply {a : Activation} {t y : Tensor α} (h : a.apply t = .ok y) :
    y.dims = t.dims := by
  cases a with
  | softmax =>
      rw [apply, shareRows] at h
      split at h
      · cases h
      · rw [← Except.ok.inj h, Tensor.dims_ofRows]
  | linear => rw [← Except.ok.inj h]
  | relu | sigmoid | tanh => exact (congrArg Tensor.dims (Except.ok.inj h)).symm

/-- Activations are taken row by row along the last axis, which may not be empty. -/
theorem apply_value (a : Activation) {t : Tensor α} {front : List Nat} {n : Nat}
    (ht : t.dims = front ++ [n]) (hn : 0 < n) :
    ∃ y, a.apply t = .ok y ∧ y.dims = t.dims ∧
      ∀ r < volume front, ∀ k < n,
        y.entry (r * n + k) = a.value n (fun u => t.entry (r * n + u)) k := by
  have hvolume : volume t.dims = volume front * n := by rw [ht, Tensor.volume_concat]
  have hmap : ∀ (f : α → α), ∀ r < volume front, ∀ k < n,
      (t.map f).entry (r * n + k) = f (t.entry (r * n + k)) := by
    intro f r hr k hk
    exact Tensor.entry_map f t (hvolume ▸ Tensor.place_lt hr hk)
  cases a with
  | relu => exact ⟨_, rfl, rfl, hmap rectified⟩
  | sigmoid => exact ⟨_, rfl, rfl, hmap Scalar.sigmoid⟩
  | tanh => exact ⟨_, rfl, rfl, hmap Scalar.tanh⟩
  | linear => exact ⟨t, rfl, rfl, fun r _ k _ => rfl⟩
  | softmax =>
      have hwidth : t.width = n := Tensor.width_eq ht
      refine ⟨Tensor.ofRows t.dims n fun r => shares n fun k => t.entry (r * n + k), ?_, rfl, ?_⟩
      · rw [apply, shareRows, hwidth, if_neg (Nat.ne_of_gt hn)]
      · intro r hr k hk
        rw [Tensor.entry_ofRows hvolume _ hr hk, shares_getD hk, value]

end Activation

/-! ## Affine maps -/

theorem Affine.entry_apply {x : Tensor α} {dims : List Nat} {rows inputs outputs : Nat}
    (hdims : volume dims = rows * outputs) (w : Nat → Nat → α) (b : Nat → α) {r j : Nat}
    (hr : r < rows) (hj : j < outputs) :
    (apply x dims inputs outputs w b).entry (r * outputs + j) =
      Scalar.sum inputs (fun k => x.entry (r * inputs + k) * w k j) + b j := by
  rw [apply, Tensor.entry_ofRows hdims _ hr hj, Tensor.getD_row _ hj]

end BlockNet
