import BlockNet.Tensor.Signal
import BlockNet.Proofs.Outcome

/-! # The axes of results

Which axes the operations on tensors give, and when they give a result at all. -/

namespace BlockNet

variable {α β γ : Type}

namespace Tensor

@[simp]
theorem dims_ofFn (dims : List Nat) (f : Nat → α) : (ofFn dims f).dims = dims := rfl

@[simp]
theorem dims_ofRows [Zero α] (dims : List Nat) (width : Nat) (row : Nat → Array α) :
    (ofRows dims width row).dims = dims := rfl

theorem entry_ofFn [Zero α] {dims : List Nat} {f : Nat → α} {i : Nat} (h : i < volume dims) :
    (ofFn dims f).entry i = f i := by
  simp [entry, ofFn, h]

theorem width_eq {t : Tensor α} {front : List Nat} {last : Nat} (h : t.dims = front ++ [last]) :
    t.width = last := by
  simp [width, h]

/-- Entries can be put under any axes that span as many. -/
theorem reshape_eq_ok {t : Tensor α} {dims : List Nat} (hvolume : volume dims = volume t.dims)
    (hpos : 0 < volume dims) : ∃ s, t.reshape dims = .ok s ∧ s.dims = dims := by
  have hne : volume dims ≠ 0 := Nat.ne_of_gt hpos
  have hreshape : t.reshape? dims = some ⟨dims, t.entries, t.size_eq.trans hvolume.symm⟩ := by
    simp [reshape?, hvolume]
  refine ⟨⟨dims, t.entries, t.size_eq.trans hvolume.symm⟩, ?_, rfl⟩
  rw [reshape, if_pos (.inl ⟨hvolume, hne⟩), hreshape]
  rfl

end Tensor

namespace Signal

@[simp]
theorem dims_toReal [Scalar α] (s : Signal α) : s.toReal.dims = s.dims := by
  cases s <;> rfl

theorem reshape_eq_ok {s : Signal α} {dims : List Nat} (hvolume : volume dims = volume s.dims)
    (hpos : 0 < volume dims) : ∃ s', s.reshape dims = .ok s' ∧ s'.dims = dims := by
  cases s with
  | real t =>
      obtain ⟨t', ht', hdims⟩ := Tensor.reshape_eq_ok hvolume hpos
      exact ⟨.real t', by rw [reshape, ht']; rfl, hdims⟩
  | whole t =>
      obtain ⟨t', ht', hdims⟩ := Tensor.reshape_eq_ok hvolume hpos
      exact ⟨.whole t', by rw [reshape, ht']; rfl, hdims⟩
  | truth t =>
      obtain ⟨t', ht', hdims⟩ := Tensor.reshape_eq_ok hvolume hpos
      exact ⟨.truth t', by rw [reshape, ht']; rfl, hdims⟩

theorem batch_eq_ok {s : Signal α} {b : Nat} {sizes : List Nat} (h : s.dims = b :: sizes) :
    s.batch = .ok b := by
  simp [batch, h]

end Signal

/-! ## Axes laid over each other -/

namespace Tensor

/-- Axes laid over themselves and the axis of one channel stay as they are. -/
theorem broadcast?_last (front : List Nat) (last : Nat) :
    broadcast? (front ++ [last]) [last] = some (front ++ [last]) := by
  have hrest : ∀ xs : List Nat, overlay? xs [] = some xs := by
    intro xs
    cases xs <;> rfl
  simp [broadcast?, overlay?, hrest]

/-- Sizes laid over as many others stay as many, and none of them becomes empty. -/
theorem overlay?_spec {xs ys zs : List Nat} (h : overlay? xs ys = some zs)
    (hlength : xs.length = ys.length) (hxs : ∀ n ∈ xs, 0 < n) (hys : ∀ n ∈ ys, 0 < n) :
    zs.length = xs.length ∧ ∀ n ∈ zs, 0 < n := by
  induction xs generalizing ys zs with
  | nil =>
      obtain rfl : ys = [] := List.length_eq_zero_iff.mp hlength.symm
      obtain rfl : [] = zs := Option.some.inj h
      exact ⟨rfl, hys⟩
  | cons x xs ih =>
      cases ys with
      | nil => cases hlength
      | cons y ys =>
          obtain ⟨hx, hxs⟩ := List.forall_mem_cons.mp hxs
          obtain ⟨hy, hys⟩ := List.forall_mem_cons.mp hys
          have hlength := Nat.succ.inj hlength
          have hcons : ∀ z, 0 < z → (overlay? xs ys).map (z :: ·) = some zs →
              zs.length = (x :: xs).length ∧ ∀ n ∈ zs, 0 < n := by
            intro z hz hmap
            obtain ⟨rest, hrest, rfl⟩ := Option.map_eq_some_iff.mp hmap
            obtain ⟨hcount, hpos⟩ := ih hrest hlength hxs hys
            exact ⟨by rw [List.length_cons, List.length_cons, hcount],
              List.forall_mem_cons.mpr ⟨hz, hpos⟩⟩
          rw [overlay?] at h
          split at h
          · exact hcons x hx h
          · split at h
            · exact hcons y hy h
            · cases h

/-- A common axis in front stays in front. -/
theorem overlay?_concat {xs ys : List Nat} (b : Nat) (hlength : xs.length = ys.length) :
    overlay? (xs ++ [b]) (ys ++ [b]) = (overlay? xs ys).map (· ++ [b]) := by
  induction xs generalizing ys with
  | nil =>
      obtain rfl : ys = [] := List.length_eq_zero_iff.mp hlength.symm
      simp [overlay?]
  | cons x xs ih =>
      cases ys with
      | nil => cases hlength
      | cons y ys =>
          have ih := ih (Nat.succ.inj hlength)
          rw [List.cons_append, List.cons_append, overlay?, overlay?, ih]
          split
          · simp [Function.comp_def]
          · split
            · simp [Function.comp_def]
            · rfl

theorem broadcast?_spec {xs ys zs : List Nat} (h : broadcast? xs ys = some zs)
    (hlength : xs.length = ys.length) (hxs : ∀ n ∈ xs, 0 < n) (hys : ∀ n ∈ ys, 0 < n) :
    zs.length = xs.length ∧ ∀ n ∈ zs, 0 < n := by
  obtain ⟨zs', hoverlay, rfl⟩ := Option.map_eq_some_iff.mp h
  have hspec := overlay?_spec hoverlay (by simpa using hlength) (by simpa using hxs)
    (by simpa using hys)
  simpa using hspec

theorem broadcast?_cons {xs ys : List Nat} (b : Nat) (hlength : xs.length = ys.length) :
    broadcast? (b :: xs) (b :: ys) = (broadcast? xs ys).map (b :: ·) := by
  have hlength : xs.reverse.length = ys.reverse.length := by simpa using hlength
  simp [broadcast?, overlay?_concat b hlength, Function.comp_def]

theorem zipWith_eq_ok [Zero α] [Zero β] {f : α → β → γ} {s : Tensor α} {t : Tensor β}
    {dims : List Nat} (h : broadcast? s.dims t.dims = some dims) :
    ∃ y, zipWith f s t = .ok y ∧ y.dims = dims := by
  rw [zipWith, overlaid, h]
  exact ⟨_, rfl, rfl⟩

end Tensor

end BlockNet
