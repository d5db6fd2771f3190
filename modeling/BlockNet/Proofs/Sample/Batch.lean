import BlockNet.Proofs.Tensor.Axes
import BlockNet.Proofs.Twin

/-! # One sample of a batch

The sample at a place of a batch can be taken out as a batch of its own. Where an entry of a result
is told from entries of the same sample, results are taken out of a batch just as samples are. -/

namespace BlockNet

variable {α β : Type}

namespace Tensor

/-- The sample at a place of the first axis, as a batch of its own; without a sample there an empty
batch. -/
def slice (t : Tensor α) (i : Nat) : Tensor α :=
  match h : t.dims with
  | [] => t
  | b :: s =>
      ⟨min 1 (b - i) :: s, t.entries.extract (i * volume s) ((i + 1) * volume s), by
        rw [Array.size_extract, t.size_eq, h, volume_cons, volume_cons, Nat.mul_min_mul_right,
          ← Nat.sub_mul]
        congr 1
        omega⟩

/-- One batch is the sample at a place of another one. -/
structure Alone (b i : Nat) (s : List Nat) (x y : Tensor α) : Prop where
  dims : x.dims = b :: s
  lone : y.dims = 1 :: s
  entries : ∀ n < volume s, y.entries[n]? = x.entries[i * volume s + n]?

variable {b i : Nat} {s : List Nat} {x y : Tensor α}

theorem ext_entries {x y : Tensor α} (hdims : x.dims = y.dims)
    (h : ∀ n < volume x.dims, x.entries[n]? = y.entries[n]?) : x = y := by
  obtain ⟨xdims, xs, hxs⟩ := x
  obtain ⟨ydims, ys, hys⟩ := y
  obtain rfl : xdims = ydims := hdims
  have hentries : xs = ys := by
    refine Array.ext_getElem? fun n => ?_
    rcases Nat.lt_or_ge n (volume xdims) with hn | hn
    · exact h n hn
    · rw [Array.getElem?_eq_none (hxs ▸ hn), Array.getElem?_eq_none (hys ▸ hn)]
  rw [mk.injEq]
  exact ⟨rfl, hentries⟩

theorem place_lt {b i n v : Nat} (hi : i < b) (hn : n < v) : i * v + n < b * v := by
  calc
    i * v + n < i * v + v := Nat.add_lt_add_left hn _
    _ = (i + 1) * v := (Nat.succ_mul i v).symm
    _ ≤ b * v := Nat.mul_le_mul_right v hi

theorem div_place {n v : Nat} (hn : n < v) (i : Nat) : (i * v + n) / v = i := by
  rw [Nat.mul_comm, Nat.mul_add_div (Nat.zero_lt_of_lt hn), Nat.div_eq_of_lt hn, Nat.add_zero]

theorem mod_place {n v : Nat} (hn : n < v) (i : Nat) : (i * v + n) % v = n := by
  rw [Nat.mul_comm, Nat.mul_add_mod, Nat.mod_eq_of_lt hn]

theorem volume_concat (front : List Nat) (n : Nat) :
    volume (front ++ [n]) = volume front * n := by
  rw [volume_append, volume_cons, volume_nil, Nat.mul_one]

theorem slice_alone (hx : x.dims = b :: s) (hi : i < b) : Alone b i s x (x.slice i) := by
  obtain ⟨dims, xs, hxs⟩ := x
  obtain rfl : dims = b :: s := hx
  have hone : min 1 (b - i) = 1 := by omega
  refine ⟨rfl, congrArg (· :: s) hone, fun n hn => ?_⟩
  have hn' : n < min ((i + 1) * volume s) xs.size - i * volume s := by
    have hplace := place_lt hi hn
    have hnext := place_lt (Nat.lt_add_one i) hn
    rw [hxs, volume_cons]
    omega
  simp only [slice]
  rw [Array.getElem?_extract, if_pos hn']

/-- A sample alone is what can be taken out of the batch. -/
theorem Alone.eq_slice (h : Alone b i s x y) (hi : i < b) : y = x.slice i := by
  have hslice := slice_alone h.dims hi
  refine ext_entries (h.lone.trans hslice.lone.symm) fun n hn => ?_
  rw [h.lone, volume_cons, Nat.one_mul] at hn
  rw [h.entries n hn, hslice.entries n hn]

theorem Alone.entry [Zero α] (h : Alone b i s x y) {n : Nat} (hn : n < volume s) :
    y.entry n = x.entry (i * volume s + n) := by
  rw [Tensor.entry, Tensor.entry, Array.getD_eq_getD_getElem?, Array.getD_eq_getD_getElem?,
    h.entries n hn]

theorem Alone.map (h : Alone b i s x y) (f : α → β) : Alone b i s (x.map f) (y.map f) := by
  refine ⟨h.dims, h.lone, fun n hn => ?_⟩
  rw [Tensor.map, Tensor.map, Array.getElem?_map, Array.getElem?_map, h.entries n hn]

/-- A result whose entries are told from entries of the same sample. -/
theorem Alone.ofFn (hi : i < b) {f g : Nat → α} (h : ∀ n < volume s, g n = f (i * volume s + n)) :
    Alone b i s (ofFn (b :: s) f) (ofFn (1 :: s) g) := by
  refine ⟨rfl, rfl, fun n hn => ?_⟩
  have hn' : n < volume (1 :: s) := by rwa [volume_cons, Nat.one_mul]
  have hplace : i * volume s + n < volume (b :: s) := place_lt hi hn
  rw [Tensor.ofFn, Tensor.ofFn, Array.getElem?_ofFn, Array.getElem?_ofFn, dif_pos hn',
    dif_pos hplace, h n hn]

theorem getD_ofFn {n k : Nat} (hk : k < n) (f : Nat → β) (d : β) :
    (Array.ofFn fun j : Fin n => f j).getD k d = f k := by
  rw [Array.getD_eq_getD_getElem?, Array.getElem?_ofFn, dif_pos hk, Option.getD_some]

/-- A place in the sample, row by row. -/
theorem split_place {i n v w : Nat} (hn : n < v * w) :
    (i * (v * w) + n) / w = i * v + n / w ∧ (i * (v * w) + n) % w = n % w ∧ n / w < v := by
  have hw : 0 < w := Nat.pos_of_mul_pos_left (Nat.zero_lt_of_lt hn)
  have hassoc : i * (v * w) + n = n + w * (i * v) := by
    rw [← Nat.mul_assoc, Nat.mul_comm w, Nat.add_comm]
  refine ⟨?_, ?_, Nat.div_lt_of_lt_mul (Nat.mul_comm v w ▸ hn)⟩
  · rw [hassoc, Nat.add_mul_div_left _ _ hw, Nat.add_comm]
  · rw [hassoc, Nat.add_mul_mod_self_left]

/-- An entry of a row of a sample. -/
theorem Alone.rowEntry [Zero α] (h : Alone b i s x y) {rows width : Nat}
    (hs : volume s = rows * width) {r k : Nat} (hr : r < rows) (hk : k < width) :
    y.entry (r * width + k) = x.entry ((i * rows + r) * width + k) := by
  have hplace : r * width + k < volume s := hs ▸ place_lt hr hk
  rw [h.entry hplace, hs, Nat.add_mul, ← Nat.mul_assoc, Nat.add_assoc]

/-- A result whose rows are told from entries of the same sample. -/
theorem Alone.ofRows [Zero α] (hi : i < b) {rows width : Nat} (hs : volume s = rows * width)
    {f g : Nat → Array α} (h : ∀ r < rows, g r = f (i * rows + r)) :
    Alone b i s (ofRows (b :: s) width f) (ofRows (1 :: s) width g) := by
  unfold Tensor.ofRows
  refine Alone.ofFn hi fun n hn => ?_
  rw [hs] at hn ⊢
  have hwidth : 0 < width := Nat.pos_of_mul_pos_left (Nat.zero_lt_of_lt hn)
  obtain ⟨hrow, hcolumn, hlt⟩ := split_place (i := i) hn
  have hlone : n / width < volume (1 :: s) / width := by
    rwa [volume_cons, Nat.one_mul, hs, Nat.mul_div_cancel _ hwidth]
  have hplace : i * rows + n / width < volume (b :: s) / width := by
    rw [volume_cons, hs, ← Nat.mul_assoc, Nat.mul_div_cancel _ hwidth]
    exact place_lt hi hlt
  rw [hrow, hcolumn, getD_ofFn hlone, getD_ofFn hplace, h _ hlt]

theorem entries_of_reshape {t u : Tensor α} {dims : List Nat} (h : t.reshape dims = .ok u) :
    u.dims = dims ∧ u.entries = t.entries ∧ volume dims = volume t.dims := by
  rw [Tensor.reshape] at h
  split at h
  · rw [reshape?] at h
    split at h
    · obtain rfl := Except.ok.inj h
      exact ⟨rfl, rfl, ‹_›⟩
    · cases h
  · cases h

/-- The same entries under other axes behind the batch. -/
theorem Alone.reshape (h : Alone b i s x y) (s' : List Nat) :
    Both (Alone b i s') (x.reshape (b :: s')) (y.reshape (1 :: s')) := by
  intro t u ht hu
  obtain ⟨htdims, htentries, -⟩ := entries_of_reshape ht
  obtain ⟨hudims, huentries, hvolume⟩ := entries_of_reshape hu
  rw [h.lone, volume_cons, volume_cons, Nat.one_mul, Nat.one_mul] at hvolume
  refine ⟨htdims, hudims, fun n hn => ?_⟩
  rw [htentries, huentries, hvolume, h.entries n (hvolume ▸ hn)]

end Tensor

namespace Signal

/-- The sample at a place of the first axis, as a batch of its own. -/
def slice (x : Signal α) (i : Nat) : Signal α :=
  match x with
  | .real t => .real (t.slice i)
  | .whole t => .whole (t.slice i)
  | .truth t => .truth (t.slice i)

/-- One batch is the sample at a place of another one, of the same element type. -/
inductive Alone (b i : Nat) (s : List Nat) : Signal α → Signal α → Prop
  | real {t u : Tensor α} (h : t.Alone b i s u) : Alone b i s (.real t) (.real u)
  | whole {t u : Tensor Int} (h : t.Alone b i s u) : Alone b i s (.whole t) (.whole u)
  | truth {t u : Tensor Bool} (h : t.Alone b i s u) : Alone b i s (.truth t) (.truth u)

variable {b i : Nat} {s : List Nat} {x y : Signal α}

theorem slice_alone (hx : x.dims = b :: s) (hi : i < b) : Alone b i s x (x.slice i) := by
  cases x with
  | real t => exact .real (Tensor.slice_alone hx hi)
  | whole t => exact .whole (Tensor.slice_alone hx hi)
  | truth t => exact .truth (Tensor.slice_alone hx hi)

theorem Alone.eq_slice (h : Alone b i s x y) (hi : i < b) : y = x.slice i := by
  cases h with
  | real h => rw [slice, h.eq_slice hi]
  | whole h => rw [slice, h.eq_slice hi]
  | truth h => rw [slice, h.eq_slice hi]

theorem Alone.dims (h : Alone b i s x y) : x.dims = b :: s ∧ y.dims = 1 :: s := by
  cases h with
  | real h => exact ⟨h.dims, h.lone⟩
  | whole h => exact ⟨h.dims, h.lone⟩
  | truth h => exact ⟨h.dims, h.lone⟩

theorem Alone.toReal [Scalar α] (h : Alone b i s x y) : x.toReal.Alone b i s y.toReal := by
  cases h with
  | real h => exact h
  | whole h => exact h.map _
  | truth h => exact h.map _

theorem Alone.batch (h : Alone b i s x y) : x.batch = .ok b ∧ y.batch = .ok 1 :=
  ⟨batch_eq_ok h.dims.1, batch_eq_ok h.dims.2⟩

theorem Alone.reshape (h : Alone b i s x y) (s' : List Nat) :
    Both (Alone b i s') (x.reshape (b :: s')) (y.reshape (1 :: s')) := by
  cases h with
  | real h => exact (h.reshape s').map fun _ _ => .real
  | whole h => exact (h.reshape s').map fun _ _ => .whole
  | truth h => exact (h.reshape s').map fun _ _ => .truth

end Signal

end BlockNet
