import BlockNet.Proofs.Sample.Batch
import Mathlib.Tactic.Ring

/-! # Places in tensors

A place names a position on each axis. What a layer gives is told place by place, whatever the axes
that the entries are stored under, for only their order counts. -/

namespace BlockNet

variable {α β : Type}

namespace Tensor

/-- Where the entry of a place stands in the order of entries. -/
def position : List Nat → List Nat → Nat
  | _ :: dims, i :: place => i * volume dims + position dims place
  | _, _ => 0

/-- The entry of a place, the entries being read row by row under some axes. -/
def under [Zero α] (t : Tensor α) (dims place : List Nat) : α := t.entry (position dims place)

theorem position_concat {dims place : List Nat} (h : place.length = dims.length) (n k : Nat) :
    position (dims ++ [n]) (place ++ [k]) = position dims place * n + k := by
  induction dims generalizing place with
  | nil =>
      obtain rfl := List.length_eq_zero_iff.mp h
      simp [position]
  | cons d dims ih =>
      cases place with
      | nil => cases h
      | cons i place =>
          rw [List.cons_append, List.cons_append, position, position, ih (Nat.succ.inj h),
            volume_concat]
          ring

@[simp]
theorem position_single (n k : Nat) : position [n] [k] = k := by simp [position]

@[simp]
theorem position_pair (a b i j : Nat) : position [a, b] [i, j] = i * b + j := by simp [position]

theorem position_triple (a b c i j k : Nat) :
    position [a, b, c] [i, j, k] = (i * b + j) * c + k := by
  simp [position]
  ring

theorem position_quadruple (a b c d i j k l : Nat) :
    position [a, b, c, d] [i, j, k, l] = ((i * b + j) * c + k) * d + l := by
  simp [position]
  ring

/-- A place within the axes stands for one of the entries. -/
theorem position_lt {dims place : List Nat} (h : List.Forall₂ (· < ·) place dims) :
    position dims place < volume dims := by
  induction h with
  | nil => simp [position]
  | cons hi _ ih => exact place_lt hi ih

/-! ## Entries of results -/

/-- The axes do not count where entries are read in their order. -/
theorem entry_congr [Zero α] {s t : Tensor α} (h : s.entries = t.entries) (i : Nat) :
    s.entry i = t.entry i := by
  rw [entry, h, entry]

theorem entry_map [Zero α] [Zero β] (f : α → β) (t : Tensor α) {i : Nat} (h : i < volume t.dims) :
    (t.map f).entry i = f (t.entry i) := by
  simp [entry, map, t.size_eq, h]

/-- An entry of a tensor that is given row by row. -/
theorem entry_ofRows [Zero α] {dims : List Nat} {rows width : Nat}
    (hdims : volume dims = rows * width) (row : Nat → Array α) {r k : Nat} (hr : r < rows)
    (hk : k < width) : (ofRows dims width row).entry (r * width + k) = (row r).getD k 0 := by
  have hplace : r * width + k < volume dims := hdims ▸ place_lt hr hk
  have hrow : r < volume dims / width := by
    rwa [hdims, Nat.mul_div_cancel _ (Nat.zero_lt_of_lt hk)]
  rw [ofRows, entry_ofFn hplace, div_place hk, mod_place hk, getD_ofFn hrow]

theorem getD_row (f : Nat → α) {n k : Nat} (hk : k < n) (d : α) : (row n f).getD k d = f k :=
  getD_ofFn hk f d

/-! ## Other axes -/

/-- Axes that a tensor can have: even where one of them is empty none is beyond the bound. -/
def Addressable (dims : List Nat) : Prop := volume dims = 0 → ∀ n ∈ dims, (n : Int) < sizeBound

/-- Entries can be read under all axes that span as many. -/
theorem reshape_eq_read {t : Tensor α} {dims : List Nat} (hvolume : volume dims = volume t.dims)
    (hdims : Addressable dims) :
    ∃ s, t.reshape dims = .ok s ∧ s.dims = dims ∧ s.entries = t.entries := by
  have hbounds : (volume dims = volume t.dims ∧ volume dims ≠ 0) ∨
      dims.all (fun n => (n : Int) < sizeBound) = true := by
    by_cases hempty : volume dims = 0
    · exact .inr (by simpa using hdims hempty)
    · exact .inl ⟨hvolume, hempty⟩
  refine ⟨⟨dims, t.entries, t.size_eq.trans hvolume.symm⟩, ?_, rfl, rfl⟩
  rw [reshape, if_pos hbounds, reshape?, dif_pos hvolume]
  rfl

end Tensor

/-! ## Batches -/

/-- A batch whose samples have as many entries as some axes span, so that it can be read as a batch of
samples under those axes. -/
structure Signal.ReadsAs (x : Signal α) (batch : Nat) (axes : List Nat) : Prop where
  dims : ∃ sample, x.dims = batch :: sample ∧ volume sample = volume axes
  addressable : Tensor.Addressable (batch :: axes)

namespace Signal.ReadsAs

variable {x : Signal α} {batch : Nat} {axes : List Nat}

theorem batch_eq (h : x.ReadsAs batch axes) : x.batch = .ok batch := by
  obtain ⟨sample, hdims, -⟩ := h.dims
  exact Signal.batch_eq_ok hdims

theorem reshape_eq [Scalar α] (h : x.ReadsAs batch axes) :
    ∃ t, x.toReal.reshape (batch :: axes) = .ok t ∧ t.dims = batch :: axes ∧
      t.entries = x.toReal.entries := by
  obtain ⟨sample, hdims, hsample⟩ := h.dims
  refine Tensor.reshape_eq_read ?_ h.addressable
  rw [Signal.dims_toReal, hdims, volume_cons, volume_cons, hsample]

end Signal.ReadsAs

end BlockNet
