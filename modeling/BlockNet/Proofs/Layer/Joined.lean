import BlockNet.Proofs.Layer.Single
import Mathlib.Data.List.Forall2

/-! # Layers that join inputs

What the shape of a sum and of tensors side by side says before any data arrives holds of every
batch. -/

namespace BlockNet

open List

variable {α : Type} [Scalar α]

theorem exists_settled {shapes : List TensorShape} {sizes : List (List Nat)}
    (h : Forall₂ TensorShape.Settled shapes sizes) {s : List Nat} (hs : s ∈ sizes) :
    ∃ shape ∈ shapes, shape.Settled s := by
  induction h with
  | nil => cases hs
  | cons hx _ ih =>
      rcases List.mem_cons.mp hs with rfl | hs
      · exact ⟨_, List.mem_cons_self, hx⟩
      · obtain ⟨shape, hshape, hsettled⟩ := ih hs
        exact ⟨shape, List.mem_cons_of_mem _ hshape, hsettled⟩

/-- A batch of samples for every shape, all of one size. -/
def Batches (b : Nat) (signals : List (Signal α)) (sizes : List (List Nat)) : Prop :=
  Forall₂ (fun x s => x.dims = b :: s) signals sizes

theorem Batches.map_dims {b : Nat} {signals : List (Signal α)} {sizes : List (List Nat)}
    (h : Batches b signals sizes) :
    (signals.map Signal.toReal).map Tensor.dims = sizes.map (b :: ·) := by
  induction h with
  | nil => rfl
  | cons hx h ih =>
      rw [List.map_cons, List.map_cons, List.map_cons, Signal.dims_toReal, hx, ih]

theorem Batches.exists_dims {b : Nat} {signals : List (Signal α)} {sizes : List (List Nat)}
    (h : Batches b signals sizes) {t : Tensor α} (ht : t ∈ signals.map Signal.toReal) :
    ∃ s ∈ sizes, t.dims = b :: s := by
  have hmem := List.mem_map_of_mem (f := Tensor.dims) ht
  rw [h.map_dims] at hmem
  obtain ⟨s, hs, hcons⟩ := List.mem_map.mp hmem
  exact ⟨s, hs, hcons.symm⟩

/-! ## Sums -/

namespace Addition

theorem withLast_eq {sizes : List Nat} (h : sizes ≠ []) (last : Nat) :
    withLast sizes last = sizes.dropLast ++ [last] := by
  have hempty : sizes.isEmpty = false := by simpa using h
  rw [withLast, hempty, if_neg Bool.false_ne_true]

theorem dims_aligned {t : Tensor α} {b : Nat} {sizes : List Nat} (hne : sizes ≠ [])
    (ht : t.dims = b :: sizes) (last : Nat) :
    (aligned t last).dims = b :: withLast sizes last := by
  have hsplit : t.dims = (b :: sizes.dropLast) ++ [sizes.getLast hne] := by
    rw [List.cons_append, List.dropLast_append_getLast, ht]
  rw [aligned, withLast_eq hne]
  split
  · rename_i hwidth
    rw [Tensor.width_eq hsplit] at hwidth
    rw [hsplit, hwidth, List.cons_append]
  · rw [Tensor.dims_ofFn, ht, List.dropLast_cons_of_ne_nil hne, List.cons_append]

omit [Scalar α] in
theorem withLast_spec {sizes : List Nat} (hne : sizes ≠ []) (hpos : ∀ n ∈ sizes, 0 < n)
    {last : Nat} (hlast : 0 < last) :
    (withLast sizes last).length = sizes.length ∧ ∀ n ∈ withLast sizes last, 0 < n := by
  have hlength := List.length_pos_iff.mpr hne
  rw [withLast_eq hne]
  refine ⟨by simp; omega, ?_⟩
  intro n hn
  rw [List.mem_append, List.mem_singleton] at hn
  rcases hn with hn | rfl
  · exact hpos n ((List.dropLast_sublist sizes).subset hn)
  · exact hlast

omit [Scalar α] in
theorem joined_eq_ok {first s : TensorShape} {last : Nat} {acc next sizes : List Nat}
    (hs : s.Settled sizes) (h : joined first last acc s = .ok next) :
    Tensor.broadcast? acc (withLast sizes last) = some next := by
  rw [joined, hs.fixedSizes, ok_bind] at h
  split at h
  · rename_i found hfound
    rw [hfound, Except.ok.inj h]
  · cases h

/-- A summand is laid over a sum as its sizes are laid over those of the sum. -/
theorem plus_eq_ok {last b : Nat} {acc next sizes : List Nat} {total : Tensor α} {x : Signal α}
    (hne : sizes ≠ []) (hlength : acc.length = (withLast sizes last).length)
    (h : Tensor.broadcast? acc (withLast sizes last) = some next) (htotal : total.dims = b :: acc)
    (hx : x.dims = b :: sizes) : ∃ y, plus last total x = .ok y ∧ y.dims = b :: next := by
  have hempty : x.dims.isEmpty = false := by rw [hx]; rfl
  have hdims : (aligned x.toReal last).dims = b :: withLast sizes last :=
    dims_aligned hne (by rw [Signal.dims_toReal, hx]) last
  rw [plus, hempty, if_neg Bool.false_ne_true]
  apply Tensor.zipWith_eq_ok
  rw [htotal, hdims, Tensor.broadcast?_cons b hlength, h]
  rfl

variable (α) in
/-- All summands, in the shapes and in the batches. -/
theorem foldlM_joined {first : TensorShape} {last : Nat} {shapes : List TensorShape}
    {sizes : List (List Nat)} (hshapes : Forall₂ TensorShape.Settled shapes sizes)
    {acc out : List Nat} (hlength : ∀ s ∈ sizes, s.length = acc.length) (hlast : 0 < last)
    (hacc : ∀ n ∈ acc, 0 < n) (h : shapes.foldlM (joined first last) acc = .ok out) :
    out.length = acc.length ∧ (∀ n ∈ out, 0 < n) ∧
      ∀ (b : Nat) (total : Tensor α) (signals : List (Signal α)), total.dims = b :: acc →
        Batches b signals sizes →
        ∃ y, signals.foldlM (plus last) total = .ok y ∧ y.dims = b :: out := by
  induction hshapes generalizing acc with
  | nil =>
      obtain rfl := Except.ok.inj h
      refine ⟨rfl, hacc, ?_⟩
      intro b total signals htotal hsignals
      cases hsignals
      exact ⟨total, rfl, htotal⟩
  | cons hs hshapes ih =>
      obtain ⟨hcount, hlength⟩ := List.forall_mem_cons.mp hlength
      rw [List.foldlM_cons, bind_eq_ok] at h
      obtain ⟨next, hnext, h⟩ := h
      have hbroadcast := joined_eq_ok hs hnext
      obtain ⟨hsame, hlay⟩ := withLast_spec hs.nonempty hs.positive hlast
      have hsame := (hsame.trans hcount).symm
      obtain ⟨hlen, hpos⟩ := Tensor.broadcast?_spec hbroadcast hsame hacc hlay
      obtain ⟨hlen', hpos', hrest⟩ := ih (fun s hs => (hlength s hs).trans hlen.symm) hpos h
      refine ⟨hlen'.trans hlen, hpos', ?_⟩
      intro b total signals htotal hsignals
      cases hsignals with
      | cons hx hsignals =>
          obtain ⟨t, ht, htdims⟩ := plus_eq_ok hs.nonempty hsame hbroadcast htotal hx
          obtain ⟨y, hy, hydims⟩ := hrest b t _ htdims hsignals
          exact ⟨y, by rw [List.foldlM_cons, ht, ok_bind, hy], hydims⟩

variable (α) in
/-- The shape of a sum of shapes with equally many axes is the shape of the sums of their
batches. -/
theorem forward_batches {shapes : List TensorShape} {out : TensorShape}
    {sizes : List (List Nat)} (hshapes : Forall₂ TensorShape.Settled shapes sizes)
    (haxes : ∀ s ∈ sizes, ∀ t ∈ sizes, s.length = t.length)
    (hout : outputShape shapes = .ok out) :
    ∃ result, out.Settled result ∧ ∀ (b : Nat) (signals : List (Signal α)),
      Batches b signals sizes → ∃ y, forward signals = .ok y ∧ y.dims = b :: result := by
  cases hshapes with
  | nil => cases hout
  | @cons shape s shapes sizes hs hshapes =>
      have hlength : ∀ t ∈ sizes, t.length = s.length := by
        intro t ht
        exact haxes t (List.mem_cons_of_mem s ht) s List.mem_cons_self
      have hlast := hs.positive _ (List.getLast_mem hs.nonempty)
      rw [outputShape, firstOf_cons, ok_bind, hs.featureSize, ok_bind, hs.fixedSizes, ok_bind,
        bind_eq_ok] at hout
      obtain ⟨result, hfold, hout⟩ := hout
      obtain ⟨hlen, hpos, hrest⟩ := foldlM_joined α hshapes hlength hlast hs.positive hfold
      have hne : result ≠ [] := by
        rw [← List.length_pos_iff, hlen]
        exact List.length_pos_iff.mpr hs.nonempty
      obtain ⟨s', hs', hsettled⟩ := TensorShape.ofSample_settled hne hpos
      refine ⟨result, ?_, ?_⟩
      · rwa [← Except.ok.inj (hs'.symm.trans hout)]
      · intro b signals hsignals
        cases hsignals with
        | @cons x _ signals _ hx hsignals =>
            have hdims : x.toReal.dims = b :: s := by rw [Signal.dims_toReal, hx]
            have hsplit : b :: s = (b :: s.dropLast) ++ [s.getLast hs.nonempty] := by
              rw [List.cons_append, List.dropLast_append_getLast]
            have hwidth : x.toReal.width = s.getLast hs.nonempty :=
              Tensor.width_eq (hdims.trans hsplit)
            obtain ⟨y, hy, hydims⟩ := hrest b x.toReal signals hdims hsignals
            refine ⟨y, ?_, hydims⟩
            have hempty : x.toReal.dims.isEmpty = false := by rw [hdims]; rfl
            simp only [forward, firstOf_cons, ok_bind, hempty, Bool.false_eq_true, if_false, hwidth]
            exact hy

end Addition

/-! ## Tensors side by side -/

namespace Concatenation

/-- Lists that agree at every other place are the same without one place. -/
theorem eraseIdx_congr {β : Type} {xs ys : List β} {i : Nat} (h : ∀ j, j ≠ i → xs[j]? = ys[j]?) :
    xs.eraseIdx i = ys.eraseIdx i := by
  apply List.ext_getElem?
  intro j
  rw [List.getElem?_eraseIdx, List.getElem?_eraseIdx]
  split
  · exact h j (by omega)
  · exact h (j + 1) (by omega)

/-- A shape that stands beside the first one differs from it along their common axis at most. -/
theorem share_eq_ok {first s : TensorShape} {i n : Nat} {sizes others : List Nat}
    (hfirst : first.Settled sizes) (hs : s.Settled others) (hi : i < sizes.length)
    (h : share first (i + 1) s = .ok n) :
    others.length = sizes.length ∧ others.eraseIdx i = sizes.eraseIdx i ∧
      n = others.getD i 0 := by
  rw [share] at h
  split at h
  · cases h
  · rename_i hrank
    have hlength : others.length = sizes.length := by
      rw [hs.rank, hfirst.rank] at hrank
      omega
    simp only at h
    split at h
    · cases h
    · rename_i hfind
      have hagree : ∀ j, j ≠ i → others[j]? = sizes[j]? := by
        intro j hj
        rcases Nat.lt_or_ge j sizes.length with hlt | hge
        · have hrange : j + 1 ∈ List.range first.rank := by
            rw [List.mem_range, hfirst.rank]
            omega
          have hsame := List.find?_eq_none.mp hfind (j + 1) hrange
          rw [hs.dims, hfirst.dims] at hsame
          have hlt' : j < others.length := hlength ▸ hlt
          have hother : others[j] = sizes[j] := by simpa [hj, hlt, hlt'] using hsame
          rw [List.getElem?_eq_getElem hlt', List.getElem?_eq_getElem hlt, hother]
        · rw [List.getElem?_eq_none hge, List.getElem?_eq_none (by omega)]
      refine ⟨hlength, eraseIdx_congr hagree, ?_⟩
      have hi' : i < others.length := hlength ▸ hi
      have hplace : s.dims[i + 1]? = some (.size others[i]) := by
        rw [hs.dims, List.getElem?_cons_succ, List.getElem?_map, List.getElem?_eq_getElem hi']
        rfl
      rw [hplace] at h
      obtain rfl := Except.ok.inj h
      have hget : others.getD i 0 = others[i] := by
        rw [List.getD_eq_getElem?_getD, List.getElem?_eq_getElem hi', Option.getD_some]
      rw [hget]
      rfl

/-- All shapes that stand beside the first one, and what they add along the common axis. -/
theorem mapM_share {first : TensorShape} {i : Nat} {sizes shares : List Nat}
    {shapes : List TensorShape} {others : List (List Nat)} (hfirst : first.Settled sizes)
    (hshapes : Forall₂ TensorShape.Settled shapes others) (hi : i < sizes.length)
    (h : shapes.mapM (share first (i + 1)) = .ok shares) :
    (∀ s ∈ others, s.length = sizes.length ∧ s.eraseIdx i = sizes.eraseIdx i) ∧
      shares = others.map fun s => s.getD i 0 := by
  induction hshapes generalizing shares with
  | nil =>
      obtain rfl := Except.ok.inj h
      exact ⟨by simp, rfl⟩
  | cons hs hshapes ih =>
      rw [List.mapM_cons, bind_eq_ok] at h
      obtain ⟨n, hn, h⟩ := h
      obtain ⟨rest, hrest, h⟩ := bind_eq_ok.mp h
      obtain ⟨hlength, herase, rfl⟩ := share_eq_ok hfirst hs hi hn
      obtain ⟨hothers, rfl⟩ := ih hrest
      exact ⟨List.forall_mem_cons.mpr ⟨⟨hlength, herase⟩, hothers⟩, (Except.ok.inj h).symm⟩

/-- The shape of shapes side by side: all but one of its sizes are those of the first one. -/
theorem outputShape_eq_ok {params : Entries} {shape out : TensorShape}
    {shapes : List TensorShape} {s : List Nat} {sizes : List (List Nat)} (hs : shape.Settled s)
    (hshapes : Forall₂ TensorShape.Settled shapes sizes)
    (hout : outputShape params (shape :: shapes) = .ok out) :
    ∃ axis i, params.integer "axis" = .ok axis ∧
      TensorShape.position? (s.length + 1) axis = some (i + 1) ∧ i < s.length ∧
      (∀ t ∈ sizes, t.length = s.length ∧ t.eraseIdx i = s.eraseIdx i) ∧
      out.Settled (s.set i (combined ((s :: sizes).map fun t => t.getD i 0))) := by
  rw [outputShape, firstOf_cons, ok_bind] at hout
  obtain ⟨written, hwritten, hout⟩ := bind_eq_ok.mp hout
  obtain ⟨axis, haxis, hout⟩ := bind_eq_ok.mp hout
  rw [hs.rank] at hout
  split at hout
  · cases hout
  · cases hout
  · rename_i place hne hplace
    obtain ⟨i, rfl⟩ := Nat.exists_eq_succ_of_ne_zero (n := place) hne
    have hi : i < s.length := Nat.lt_of_succ_lt_succ (TensorShape.position?_lt hplace)
    obtain ⟨shares, hshares, hout⟩ := bind_eq_ok.mp hout
    obtain ⟨hothers, rfl⟩ := mapM_share hs (.cons hs hshapes) hi hshares
    have hpos : 0 < combined ((s :: sizes).map fun t => t.getD i 0) := by
      have hfirst := hs.positive s[i] (List.getElem_mem hi)
      have hget : s.getD i 0 = s[i] := by
        rw [List.getD_eq_getElem?_getD, List.getElem?_eq_getElem hi, Option.getD_some]
      rw [List.map_cons, combined_cons, hget]
      exact Nat.add_pos_left hfirst _
    have hrank : TensorShape.position? shape.rank ((i + 1 : Nat) : Int) = some (i + 1) := by
      apply TensorShape.position?_natCast
      rw [hs.rank]
      exact Nat.succ_lt_succ hi
    obtain ⟨s', hs', hsettled⟩ := hs.withSize hrank hpos
    refine ⟨axis, i, ?_, hplace, hi, fun t ht => hothers t (List.mem_cons_of_mem s ht), ?_⟩
    · rw [Entries.integer, hwritten, ok_bind, haxis]
    · rw [hs', ok_bind] at hout
      rw [← Except.ok.inj hout]
      exact ⟨hsettled.dims, hsettled.nonempty, hsettled.positive⟩

omit [Scalar α] in
/-- Tensors of samples all count. -/
theorem filter_vacant {tensors : List (Tensor α)} (h : ∀ t ∈ tensors, 1 < t.dims.length) :
    tensors.any (·.dims.isEmpty) = false ∧ tensors.filter (fun t => !isVacant t) = tensors := by
  rw [List.any_eq_false, List.filter_eq_self]
  constructor
  · intro t ht hempty
    have hlength := h t ht
    rw [List.isEmpty_iff.mp hempty] at hlength
    cases hlength
  · intro t ht
    have hlength := h t ht
    have hne : t.dims ≠ [0] := by
      intro hzero
      rw [hzero] at hlength
      exact Nat.lt_irrefl 1 hlength
    simp [isVacant, hne]

/-- The axes of batches side by side. -/
theorem dims_sideBySide {b i : Nat} {sizes : List (List Nat)} {s : List Nat} {x : Tensor α}
    {signals : List (Signal α)} (hx : x.dims = b :: s) (hsignals : Batches b signals sizes) :
    (sideBySide (i + 1) x (x :: signals.map Signal.toReal)).dims =
      b :: s.set i (combined ((s :: sizes).map fun t => t.getD i 0)) := by
  have hrest : (signals.map Signal.toReal).map (fun t => t.dims.getD (i + 1) 0) =
      sizes.map fun t => t.getD i 0 := by
    have hgets := congrArg (List.map fun r : List Nat => r.getD (i + 1) 0) hsignals.map_dims
    simpa only [List.map_map, Function.comp_def, List.getD_cons_succ] using hgets
  rw [sideBySide, List.map_cons, hrest, hx, Tensor.dims_ofRows, List.getD_cons_succ,
    List.set_cons_succ, List.map_cons]

/-- Tensors go side by side along an axis if they differ along it at most. -/
theorem forward_eq_sideBySide {layer : Layer α} {axis : Int} {i b : Nat} {s : List Nat}
    {sizes : List (List Nat)} (haxis : layer.params.integer "axis" = .ok axis)
    (hplace : TensorShape.position? (s.length + 1) axis = some (i + 1)) (hs : s ≠ [])
    (hsizes : ∀ t ∈ sizes, t.length = s.length ∧ t.eraseIdx i = s.eraseIdx i)
    {x : Signal α} {signals : List (Signal α)} (hx : x.dims = b :: s)
    (hsignals : Batches b signals sizes) :
    forward layer (x :: signals) =
      .ok (sideBySide (i + 1) x.toReal (x.toReal :: signals.map Signal.toReal)) := by
  have hfirst : x.toReal.dims = b :: s := by rw [Signal.dims_toReal, hx]
  have hlength := List.length_pos_iff.mpr hs
  have hlong : ∀ t ∈ x.toReal :: signals.map Signal.toReal, 1 < t.dims.length := by
    rw [List.forall_mem_cons, hfirst, List.length_cons]
    refine ⟨by omega, ?_⟩
    intro t ht
    obtain ⟨r, hr, htdims⟩ := hsignals.exists_dims ht
    rw [htdims, List.length_cons, (hsizes r hr).1]
    omega
  obtain ⟨haxes, hfilter⟩ := filter_vacant hlong
  have hrank : x.toReal.rank = s.length + 1 := by rw [Tensor.rank, hfirst, List.length_cons]
  have hfits : (signals.map Signal.toReal).all
      (fun t => t.rank == x.toReal.rank && fits (i + 1) x.toReal t) = true := by
    rw [List.all_eq_true]
    intro t ht
    obtain ⟨r, hr, htdims⟩ := hsignals.exists_dims ht
    obtain ⟨hcount, herase⟩ := hsizes r hr
    simp [Tensor.rank, fits, htdims, hx, hcount, herase]
  rw [hrank] at hfits
  simp only [forward, haxis, ok_bind, List.map_cons, haxes, hfilter, List.isEmpty_cons,
    Bool.false_eq_true, or_self, if_false, hrank, hplace, hfits, if_true]

/-- The shape of shapes side by side is the shape of their batches side by side. -/
theorem forward_batches {layer : Layer α} {shapes : List TensorShape} {sizes : List (List Nat)}
    (hshapes : Forall₂ TensorShape.Settled shapes sizes)
    (hout : outputShape layer.params shapes = .ok layer.outputShape) :
    ∃ result, layer.outputShape.Settled result ∧ ∀ (b : Nat) (signals : List (Signal α)),
      Batches b signals sizes → ∃ y, forward layer signals = .ok y ∧ y.dims = b :: result := by
  cases hshapes with
  | nil => cases hout
  | cons hs hshapes =>
      obtain ⟨axis, i, haxis, hplace, -, hsizes, hsettled⟩ := outputShape_eq_ok hs hshapes hout
      refine ⟨_, hsettled, ?_⟩
      intro b signals hsignals
      cases hsignals with
      | @cons x _ signals _ hx hsignals =>
          have hfirst : x.toReal.dims = b :: _ := (Signal.dims_toReal x).trans hx
          exact ⟨_, forward_eq_sideBySide haxis hplace hs.nonempty hsizes hx hsignals,
            dims_sideBySide hfirst hsignals⟩

end Concatenation

end BlockNet
