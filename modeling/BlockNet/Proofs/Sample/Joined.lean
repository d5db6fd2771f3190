import BlockNet.Proofs.Sample.Single
import BlockNet.Proofs.Layer.Joined

/-! # Joined inputs look at one sample at a time

A sum, and tensors side by side, are for a batch what they are for its samples. -/

namespace BlockNet

open List

variable {α : Type}

/-- Inputs of samples of some sizes, beside the samples at a place of them. -/
inductive Samples (b i : Nat) : List (List Nat) → List (Signal α) → List (Signal α) → Prop
  | nil : Samples b i [] [] []
  | cons {s : List Nat} {sizes : List (List Nat)} {x y : Signal α} {xs ys : List (Signal α)}
      (h : x.Alone b i s y) (rest : Samples b i sizes xs ys) :
      Samples b i (s :: sizes) (x :: xs) (y :: ys)

variable {b i : Nat} {sizes : List (List Nat)} {xs ys : List (Signal α)}

theorem Samples.batches (h : Samples b i sizes xs ys) : Batches b xs sizes ∧ Batches 1 ys sizes := by
  induction h with
  | nil => exact ⟨.nil, .nil⟩
  | cons h _ ih => exact ⟨.cons h.dims.1 ih.1, .cons h.dims.2 ih.2⟩

theorem Samples.of_batches (hxs : Batches b xs sizes)
    (h : Forall₂ (fun x y => ∃ s, Signal.Alone b i s x y) xs ys) : Samples b i sizes xs ys := by
  induction hxs generalizing ys with
  | nil =>
      cases h
      exact .nil
  | cons hx _ ih =>
      cases h with
      | cons hxy hrest =>
          obtain ⟨s, hxy⟩ := hxy
          obtain rfl : s = _ := (List.cons.inj (hxy.dims.1.symm.trans hx)).2
          exact .cons hxy (ih hrest)

variable [Scalar α] (hi : i < b)

include hi

/-! ## Sums -/

namespace Addition

theorem aligned_alone {t u : Tensor α} {s : List Nat} (h : t.Alone b i s u) (hs : s ≠ [])
    (last : Nat) :
    ∃ s', s'.length = s.length ∧ (aligned t last).Alone b i s' (aligned u last) := by
  obtain ⟨front, c, rfl⟩ := (List.eq_nil_or_concat' s).resolve_left hs
  have ht : t.dims = (b :: front) ++ [c] := h.dims
  have hu : u.dims = (1 :: front) ++ [c] := h.lone
  have hrows := Tensor.volume_concat front
  rw [aligned, aligned, Tensor.width_eq ht, Tensor.width_eq hu]
  split
  · exact ⟨_, rfl, h⟩
  · rw [ht, hu, List.dropLast_concat, List.dropLast_concat]
    refine ⟨front ++ [last], by simp, .ofFn hi fun n hn => ?_⟩
    rw [hrows] at hn
    obtain ⟨hrow, hcolumn, hlt⟩ := Tensor.split_place (i := i) hn
    rw [hrows, hrow, hcolumn]
    split
    · exact h.rowEntry (hrows c) hlt ‹_›
    · rfl

theorem plus_alone {total lone : Tensor α} {acc s : List Nat} {x y : Signal α}
    (h : total.Alone b i acc lone) (hxy : x.Alone b i s y) (hs : s ≠ [])
    (hlength : acc.length = s.length) (last : Nat) :
    Both (fun t u => ∃ next, next.length = acc.length ∧ t.Alone b i next u) (plus last total x)
      (plus last lone y) := by
  have hx : x.dims.isEmpty = false := by rw [hxy.dims.1]; rfl
  have hy : y.dims.isEmpty = false := by rw [hxy.dims.2]; rfl
  obtain ⟨s', hsame, haligned⟩ := aligned_alone hi hxy.toReal hs last
  rw [plus, plus, hx, hy, if_neg Bool.false_ne_true, if_neg Bool.false_ne_true]
  exact h.zipWith hi haligned (hlength.trans hsame.symm) _

theorem foldlM_alone (h : Samples b i sizes xs ys) {total lone : Tensor α} {acc : List Nat}
    (htotal : total.Alone b i acc lone) (hacc : acc ≠ [])
    (hlength : ∀ s ∈ sizes, s.length = acc.length) (last : Nat) :
    Both (fun t u => ∃ s, t.Alone b i s u) (xs.foldlM (plus last) total)
      (ys.foldlM (plus last) lone) := by
  -- the sum so far has as many axes as every summand, whatever their sizes
  induction h generalizing total lone acc with
  | nil => exact .ok ⟨acc, htotal⟩
  | @cons s _ _ _ _ _ hxy _ ih =>
      obtain ⟨hfirst, hlength⟩ := List.forall_mem_cons.mp hlength
      have hs : s ≠ [] := by
        rwa [← List.length_pos_iff, hfirst, List.length_pos_iff]
      rw [List.foldlM_cons, List.foldlM_cons]
      refine (plus_alone hi htotal hxy hs hfirst.symm last).bind ?_
      rintro t u ⟨next, hnext, htu⟩
      refine ih htu ?_ fun r hr => (hlength r hr).trans hnext.symm
      rwa [← List.length_pos_iff, hnext, List.length_pos_iff]

theorem forward_alone (h : Samples b i sizes xs ys) (hne : ∀ s ∈ sizes, s ≠ [])
    (haxes : ∀ s ∈ sizes, ∀ t ∈ sizes, s.length = t.length) :
    Both (fun t u => ∃ s, t.Alone b i s u) (forward xs) (forward ys) := by
  cases h with
  | nil => exact .left _ _
  | @cons s rest x y _ _ hxy hrest =>
      have hs := hne s List.mem_cons_self
      obtain ⟨front, c, rfl⟩ := (List.eq_nil_or_concat' s).resolve_left hs
      have hx : x.toReal.dims = (b :: front) ++ [c] := hxy.toReal.dims
      have hy : y.toReal.dims = (1 :: front) ++ [c] := hxy.toReal.lone
      have hxempty : ¬x.toReal.dims.isEmpty = true := by rw [hx]; simp
      have hyempty : ¬y.toReal.dims.isEmpty = true := by rw [hy]; simp
      rw [forward, forward, firstOf_cons, firstOf_cons, ok_bind, ok_bind]
      dsimp only [List.tail_cons]
      rw [Tensor.width_eq hx, Tensor.width_eq hy, if_neg hxempty, if_neg hyempty]
      refine foldlM_alone hi hrest hxy.toReal hs (fun r hr => ?_) c
      exact haxes r (List.mem_cons_of_mem _ hr) _ List.mem_cons_self

end Addition

/-! ## Tensors side by side -/

namespace Concatenation

omit [Scalar α] hi in
theorem chunk_eq {t : Tensor α} {m j : Nat} {s : List Nat} (ht : t.dims = m :: s) (hs : s ≠ []) :
    chunk (j + 1) t = volume (s.drop j) := by
  have hvacant : isVacant t = false := by simp [isVacant, ht, hs]
  rw [chunk, hvacant, ht]
  rfl

omit hi in
/-- What a row is made of. -/
theorem chunks_alone (h : Samples b i sizes xs ys) {j rows r : Nat} (hr : r < rows)
    (hsizes : ∀ s ∈ sizes, s ≠ [] ∧ volume (s.take j) = rows) :
    ((ys.map Signal.toReal).map fun t => Tensor.row (chunk (j + 1) t) fun k =>
        t.entry (r * chunk (j + 1) t + k)) =
      (xs.map Signal.toReal).map fun t => Tensor.row (chunk (j + 1) t) fun k =>
        t.entry ((i * rows + r) * chunk (j + 1) t + k) := by
  induction h with
  | nil => rfl
  | @cons s _ x y _ _ hxy _ ih =>
      obtain ⟨⟨hs, hrows⟩, hsizes⟩ := List.forall_mem_cons.mp hsizes
      have hvolume : volume s = rows * volume (s.drop j) := by
        rw [← hrows, ← volume_append, List.take_append_drop]
      simp only [List.map_cons, ih hsizes, chunk_eq hxy.toReal.dims hs, chunk_eq hxy.toReal.lone hs]
      rw [Tensor.row_congr fun k hk => hxy.toReal.rowEntry hvolume hr hk]

omit hi in
/-- The sizes of the parts of a row. -/
theorem combined_chunks {m j : Nat} (hbatches : Batches m xs sizes) {back : List Nat}
    (hsizes : ∀ s ∈ sizes, j < s.length ∧ s.drop (j + 1) = back) :
    combined ((xs.map Signal.toReal).map (chunk (j + 1))) =
      combined (sizes.map fun s => s.getD j 0) * volume back := by
  induction hbatches with
  | nil => simp
  | @cons x s _ _ hx _ ih =>
      obtain ⟨⟨hj, hback⟩, hsizes⟩ := List.forall_mem_cons.mp hsizes
      have hs : s ≠ [] := List.ne_nil_of_length_pos (Nat.zero_lt_of_lt hj)
      have hget : s.getD j 0 = s[j] := by
        rw [List.getD_eq_getElem?_getD, List.getElem?_eq_getElem hj, Option.getD_some]
      have hdims : x.toReal.dims = m :: s := (Signal.dims_toReal x).trans hx
      rw [List.map_cons, List.map_cons, List.map_cons, combined_cons, combined_cons, ih hsizes,
        chunk_eq hdims hs, List.drop_eq_getElem_cons hj, volume_cons, hback, hget, Nat.add_mul]

theorem sideBySide_alone {s : List Nat} {x y : Signal α}
    (h : Samples b i (s :: sizes) (x :: xs) (y :: ys)) {j : Nat} (hj : j < s.length)
    (hsizes : ∀ t ∈ s :: sizes, t.length = s.length ∧ t.eraseIdx j = s.eraseIdx j) :
    ∃ s', (sideBySide (j + 1) x.toReal (x.toReal :: xs.map Signal.toReal)).Alone b i s'
      (sideBySide (j + 1) y.toReal (y.toReal :: ys.map Signal.toReal)) := by
  have hparts : ∀ t ∈ s :: sizes, t.take j = s.take j ∧ t.drop (j + 1) = s.drop (j + 1) := by
    intro t ht
    obtain ⟨hlength, herase⟩ := hsizes t ht
    rw [List.eraseIdx_eq_take_drop_succ, List.eraseIdx_eq_take_drop_succ] at herase
    exact List.append_inj herase (by simp [hlength])
  have hchunks : ∀ t ∈ s :: sizes, t ≠ [] ∧ volume (t.take j) = volume (s.take j) := by
    intro t ht
    refine ⟨List.ne_nil_of_length_pos ?_, by rw [(hparts t ht).1]⟩
    rw [(hsizes t ht).1]
    exact Nat.zero_lt_of_lt hj
  have hwidths : ∀ t ∈ s :: sizes, j < t.length ∧ t.drop (j + 1) = s.drop (j + 1) :=
    fun t ht => ⟨(hsizes t ht).1 ▸ hj, (hparts t ht).2⟩
  cases h with
  | cons hxy hrest =>
      have hbatches := (Samples.cons hxy hrest).batches
      have hdims := dims_sideBySide (i := j) hxy.toReal.dims hrest.batches.1
      have hlone := dims_sideBySide (i := j) hxy.toReal.lone hrest.batches.2
      have hwide := combined_chunks hbatches.1 hwidths
      have hwidelone := combined_chunks hbatches.2 hwidths
      rw [sideBySide, Tensor.dims_ofRows] at hdims hlone
      rw [List.map_cons] at hwide hwidelone
      rw [sideBySide, sideBySide, hdims, hlone, hwide, hwidelone]
      have hrows : ∀ n, volume (s.set j n) =
          volume (s.take j) * (n * volume (s.drop (j + 1))) := by
        intro n
        rw [List.set_eq_take_append_cons_drop, if_pos hj, volume_append, volume_cons]
      refine ⟨_, .ofRows hi (hrows _) fun r hr => ?_⟩
      exact congrArg (List.foldl (· ++ ·) #[]) (chunks_alone (.cons hxy hrest) hr hchunks)

theorem forward_alone (h : Samples b i sizes xs ys) {layer : Layer α} {shapes : List TensorShape}
    (hshapes : Forall₂ TensorShape.Settled shapes sizes)
    (hout : outputShape layer.params shapes = .ok layer.outputShape) :
    Both (fun t u => ∃ s, t.Alone b i s u) (forward layer xs) (forward layer ys) := by
  cases hshapes with
  | nil => cases hout
  | cons hs hshapes =>
      obtain ⟨axis, j, haxis, hplace, hj, hsizes, -⟩ := outputShape_eq_ok hs hshapes hout
      cases h with
      | cons hxy hrest =>
          rw [forward_eq_sideBySide haxis hplace hs.nonempty hsizes hxy.dims.1 hrest.batches.1,
            forward_eq_sideBySide haxis hplace hs.nonempty hsizes hxy.dims.2 hrest.batches.2]
          exact .ok (sideBySide_alone hi (.cons hxy hrest) hj
            (List.forall_mem_cons.mpr ⟨⟨rfl, rfl⟩, hsizes⟩))

end Concatenation

end BlockNet
