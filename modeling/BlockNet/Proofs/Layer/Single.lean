import BlockNet.Proofs.Layer.Settings
import BlockNet.Proofs.Layer.Weights
import BlockNet.Proofs.Shape.Settled

/-! # Layers of one input

A layer that was made for a settled shape has a settled shape itself, and from a batch of samples of
the one it gives a batch of samples of the other. -/

namespace BlockNet

variable {α : Type} [Scalar α]

/-- Every batch of samples of some sizes becomes a batch of samples of other sizes. -/
def Maps (f : List (Signal α) → Outcome (Tensor α)) (sizes out : List Nat) : Prop :=
  ∀ (b : Nat) (x : Signal α) (xs : List (Signal α)), 0 < b → x.dims = b :: sizes →
    ∃ y, f (x :: xs) = .ok y ∧ y.dims = b :: out

theorem firstOf_cons {β : Type} (x : β) (xs : List β) : firstOf (x :: xs) = .ok x := rfl

/-! ## Activations -/

/-- An activation of rows that are not empty gives a result with the same axes. -/
theorem Activation.apply_eq_ok (a : Activation) {t : Tensor α} (h : t.width ≠ 0) :
    ∃ y, a.apply t = .ok y ∧ y.dims = t.dims := by
  cases a with
  | softmax =>
      rw [Activation.apply, Activation.shareRows, if_neg h]
      exact ⟨_, rfl, rfl⟩
  | relu => exact ⟨_, rfl, rfl⟩
  | sigmoid => exact ⟨_, rfl, rfl⟩
  | tanh => exact ⟨_, rfl, rfl⟩
  | linear => exact ⟨_, rfl, rfl⟩

theorem Activation.applyNamed_eq_ok {params : Entries} {specs : List ParamSpec}
    (hfit : params.Fit specs) (hmem : Stock.activation ∈ specs) {t : Tensor α} (h : t.width ≠ 0) :
    ∃ y, Activation.applyNamed params t = .ok y ∧ y.dims = t.dims := by
  obtain ⟨v, a, hv, ha⟩ := hfit.activation hmem
  obtain ⟨y, hy, hdims⟩ := a.apply_eq_ok h
  refine ⟨y, ?_, hdims⟩
  rw [Activation.applyNamed, bind_eq_ok]
  exact ⟨v, hv, bind_eq_ok.mpr ⟨a, ha, hy⟩⟩

/-! ## Dense layers -/

/-- Another size for the last axis. -/
theorem TensorShape.Settled.withSize_last {s : TensorShape} {sizes : List Nat}
    (h : s.Settled sizes) {n : Nat} (hn : 0 < n) :
    ∃ s', s.withSize (-1) n = .ok s' ∧ s'.Settled (sizes.dropLast ++ [n]) := by
  obtain ⟨front, last, rfl⟩ : ∃ front last, sizes = front ++ [last] :=
    ⟨_, _, (List.dropLast_append_getLast h.nonempty).symm⟩
  have hplace : TensorShape.position? s.rank (-1) = some (front.length + 1) := by
    rw [h.rank]
    simp [TensorShape.position?]
    omega
  obtain ⟨s', hs', hsettled⟩ := h.withSize hplace hn
  rw [List.set_append_right _ _ (Nat.le_refl _), Nat.sub_self, List.set_cons_zero] at hsettled
  rw [List.dropLast_concat]
  exact ⟨s', hs', hsettled⟩

theorem Dense.build_eq_ok {params : Entries} {shape : TensorShape} {shapes : List TensorShape}
    {features units : Nat} {weights : List (Weight α)} {g g' : Generator}
    (hfeatures : shape.featureSize Dense.kind = .ok features)
    (hunits : params.integer "units" = .ok (units : Int))
    (h : (Dense.build params (shape :: shapes)).run g = (.ok weights, g')) :
    ∃ kernel bias, weights = kernel :: bias ∧ kernel.name = "kernel" ∧
      kernel.tensor.dims = [features, units] := by
  rw [Dense.build, run_lift_bind_ok (firstOf_cons shape shapes), run_lift_bind_ok hfeatures,
    run_lift_bind_ok hunits] at h
  obtain ⟨kernel, g₁, hkernel, h⟩ := run_bind_eq_ok.mp h
  obtain ⟨bias, g₂, -, h⟩ := run_bind_eq_ok.mp h
  obtain ⟨rfl, -⟩ := run_pure_eq_ok.mp h
  obtain ⟨hname, hdims⟩ := drawnWeight_eq_ok hkernel
  exact ⟨kernel, bias, rfl, hname, by simpa using hdims⟩

theorem Dense.forward_maps {layer : Layer α} {shape : TensorShape} {shapes : List TensorShape}
    {sizes : List Nat} {g g' : Generator} (hfit : layer.params.Fit Kernel.dense.settings)
    (hshape : shape.Settled sizes)
    (hout : Dense.outputShape layer.params (shape :: shapes) = .ok layer.outputShape)
    (hbuild : (Dense.build layer.params (shape :: shapes)).run g = (.ok layer.weights, g')) :
    ∃ out, layer.outputShape.Settled out ∧ Maps (Dense.forward layer) sizes out := by
  obtain ⟨units, hpos, hunits⟩ : ∃ n : Nat, 0 < n ∧ layer.params.integer "units" = .ok (n : Int) :=
    hfit.size List.mem_cons_self
  obtain ⟨s, hs, hsettled⟩ := hshape.withSize_last hpos
  obtain ⟨kernel, bias, hweights, hname, hdims⟩ :=
    Dense.build_eq_ok (hshape.featureSize _) hunits hbuild
  simp only [Dense.outputShape, firstOf_cons, hshape.featureSize, hunits, bind, Except.bind, hs]
    at hout
  refine ⟨sizes.dropLast ++ [units], ?_, ?_⟩
  · rw [← Except.ok.inj hout]
    exact ⟨hsettled.dims, hsettled.nonempty, hsettled.positive⟩
  · intro b x xs hb hx
    have hkernel : layer.weight "kernel" = .ok kernel.tensor :=
      hname ▸ Layer.weight_eq_ok [] hweights (by simp)
    have hlast : x.toReal.dims.getLast? = some (sizes.getLast hshape.nonempty) := by
      rw [Signal.dims_toReal, hx, List.getLast?_cons,
        List.getLast?_eq_some_getLast hshape.nonempty]
      rfl
    have hfront : x.toReal.dims.dropLast = b :: sizes.dropLast := by
      rw [Signal.dims_toReal, hx, List.dropLast_cons_of_ne_nil hshape.nonempty]
    have hlinear : ∃ t, Dense.linear x.toReal kernel.tensor (layer.weight? "bias") = .ok t ∧
        t.dims = (b :: sizes.dropLast) ++ [units] := by
      simp only [Dense.linear, hdims, hlast, if_true, hfront]
      exact ⟨_, rfl, rfl⟩
    obtain ⟨t, ht, htdims⟩ := hlinear
    have hwidth : t.width ≠ 0 := by
      rw [Tensor.width_eq htdims]
      exact Nat.ne_of_gt hpos
    obtain ⟨y, hy, hydims⟩ := Activation.applyNamed_eq_ok hfit
      (List.mem_cons_of_mem _ List.mem_cons_self) hwidth
    refine ⟨y, ?_, hydims.trans htdims⟩
    simp only [Dense.forward, firstOf_cons, hkernel, ht, bind, Except.bind]
    exact hy

/-! ## Images -/

/-- A batch of samples is a batch of images in the image view of their shape. -/
theorem Convolution.images_eq_ok {shape : TensorShape} {shapes : List TensorShape}
    {sizes : List Nat} {kind : String} {image : ImageSize} (hshape : shape.Settled sizes)
    (himage : shape.imageSize kind = .ok image) {b : Nat} {x : Signal α} {xs : List (Signal α)}
    (hb : 0 < b) (hx : x.dims = b :: sizes) :
    ∃ t, Convolution.images (shape :: shapes) kind (x :: xs) = .ok (image, b, t) := by
  obtain ⟨hheight, hwidth, hchannels, hsize⟩ :=
    ImageSize.ofSizes?_eq_some (hshape.ofSizes?_of_imageSize himage) hshape.positive
  have hvolume : volume [b, image.height, image.width, image.channels] =
      volume x.toReal.dims := by
    rw [Signal.dims_toReal, hx, volume_cons b sizes, ← hsize]
    simp [ImageSize.size, Nat.mul_assoc]
  have hpos : 0 < volume [b, image.height, image.width, image.channels] :=
    volume_pos (by simp [hb, hheight, hwidth, hchannels])
  obtain ⟨t, ht, -⟩ := Tensor.reshape_eq_ok hvolume hpos
  refine ⟨t, ?_⟩
  simp only [images, firstOf_cons, himage, Signal.batch_eq_ok hx, ht, bind, Except.bind]

theorem Convolution.build_eq_ok {params : Entries} {shape : TensorShape}
    {shapes : List TensorShape} {image : ImageSize} {k filters : Nat} {weights : List (Weight α)}
    {g g' : Generator} (himage : shape.imageSize Convolution.kind = .ok image)
    (hk : params.integer "kernel_size" = .ok (k : Int))
    (hfilters : params.integer "filters" = .ok (filters : Int))
    (h : (Convolution.build params (shape :: shapes)).run g = (.ok weights, g')) :
    ∃ kernel bias, weights = kernel :: bias ∧ kernel.name = "kernel" ∧
      kernel.tensor.dims = [k, k, image.channels, filters] := by
  rw [Convolution.build, run_lift_bind_ok (firstOf_cons shape shapes), run_lift_bind_ok himage,
    run_lift_bind_ok hk, run_lift_bind_ok hfilters] at h
  obtain ⟨kernel, g₁, hkernel, h⟩ := run_bind_eq_ok.mp h
  obtain ⟨bias, g₂, -, h⟩ := run_bind_eq_ok.mp h
  obtain ⟨rfl, -⟩ := run_pure_eq_ok.mp h
  obtain ⟨hname, hdims⟩ := drawnWeight_eq_ok hkernel
  exact ⟨kernel, bias, rfl, hname, by simpa using hdims⟩

theorem Convolution.forward_maps {layer : Layer α} {shape : TensorShape}
    {shapes : List TensorShape} {sizes : List Nat} {g g' : Generator}
    (hfit : layer.params.Fit Kernel.convolution.settings)
    (hshapes : layer.inputShapes = shape :: shapes) (hshape : shape.Settled sizes)
    (hout : Convolution.outputShape layer.params (shape :: shapes) = .ok layer.outputShape)
    (hbuild : (Convolution.build layer.params (shape :: shapes)).run g = (.ok layer.weights, g')) :
    ∃ out, layer.outputShape.Settled out ∧ Maps (Convolution.forward layer) sizes out := by
  obtain ⟨filters, hfilters, hparam⟩ :
      ∃ n : Nat, 0 < n ∧ layer.params.integer "filters" = .ok (n : Int) :=
    hfit.size List.mem_cons_self
  obtain ⟨k, hk, hsize⟩ :
      ∃ n : Nat, 0 < n ∧ layer.params.integer "kernel_size" = .ok (n : Int) :=
    hfit.size (List.mem_cons_of_mem _ List.mem_cons_self)
  rw [Convolution.outputShape, firstOf_cons, ok_bind, bind_eq_ok] at hout
  obtain ⟨image, himage, hout⟩ := hout
  rw [hparam, ok_bind] at hout
  obtain ⟨hheight, hwidth, hchannels, -⟩ :=
    ImageSize.ofSizes?_eq_some (hshape.ofSizes?_of_imageSize himage) hshape.positive
  obtain ⟨s, hs, hsettled⟩ :=
    TensorShape.ofSample_settled (List.cons_ne_nil image.height [image.width, filters])
      (by simp [hheight, hwidth, hfilters])
  obtain ⟨kernel, bias, hweights, hname, hdims⟩ :=
    Convolution.build_eq_ok himage hsize hparam hbuild
  refine ⟨[image.height, image.width, filters], ?_, ?_⟩
  · rwa [← Except.ok.inj (hs.symm.trans hout)]
  · intro b x xs hb hx
    obtain ⟨t, ht⟩ : ∃ t, images (shape :: shapes) kind (x :: xs) = .ok (image, b, t) :=
      images_eq_ok hshape himage hb hx
    have hkernel : layer.weight "kernel" = .ok kernel.tensor :=
      hname ▸ Layer.weight_eq_ok [] hweights (by simp)
    let out := convolve image k filters b t kernel.tensor (layer.weight? "bias")
    have hout : out.dims = [b, image.height, image.width] ++ [filters] := rfl
    have hwide : out.width ≠ 0 := by
      rw [Tensor.width_eq hout]
      exact Nat.ne_of_gt hfilters
    obtain ⟨y, hy, hydims⟩ := Activation.applyNamed_eq_ok hfit
      (List.mem_cons_of_mem _ (List.mem_cons_of_mem _ List.mem_cons_self)) hwide
    refine ⟨y, ?_, hydims⟩
    have hcells : ¬(k = 0 ∨ filters = 0 ∨ image.height = 0 ∨ image.width = 0) := by omega
    have hchannels : image.channels ≠ 0 := by omega
    simp only [forward, hshapes, ht, hkernel, hdims, ok_bind, List.getD_cons_zero,
      List.getD_cons_succ, hcells, hchannels, if_false]
    exact hy

theorem Pooling.forward_maps {layer : Layer α} {shape : TensorShape} {shapes : List TensorShape}
    {sizes : List Nat} (hfit : layer.params.Fit Kernel.pooling.settings)
    (hshapes : layer.inputShapes = shape :: shapes) (hshape : shape.Settled sizes)
    (hout : Pooling.outputShape layer.params (shape :: shapes) = .ok layer.outputShape) :
    ∃ out, layer.outputShape.Settled out ∧ Maps (Pooling.forward layer) sizes out := by
  obtain ⟨pool, hpool, hparam⟩ :
      ∃ n : Nat, 0 < n ∧ layer.params.integer "pool_size" = .ok (n : Int) :=
    hfit.size List.mem_cons_self
  rw [Pooling.outputShape, firstOf_cons, ok_bind, bind_eq_ok] at hout
  obtain ⟨image, himage, hout⟩ := hout
  obtain ⟨-, -, hchannels, -⟩ :=
    ImageSize.ofSizes?_eq_some (hshape.ofSizes?_of_imageSize himage) hshape.positive
  have hne : ¬(pool : Int) = 0 := by omega
  simp only [hparam, ok_bind, hne, if_false, ← Int.ofNat_fdiv] at hout
  split at hout
  · cases hout
  · rename_i hleft
    have hleft : image.height / pool ≠ 0 ∧ image.width / pool ≠ 0 := by omega
    have hpos : ∀ n ∈ [image.height / pool, image.width / pool, image.channels], 0 < n := by
      simp [Nat.pos_iff_ne_zero, hleft, Nat.ne_of_gt hchannels]
    obtain ⟨s, hs, hsettled⟩ := TensorShape.ofSample_settled (List.cons_ne_nil _ _) hpos
    refine ⟨[image.height / pool, image.width / pool, image.channels], ?_, ?_⟩
    · rwa [← Except.ok.inj (hs.symm.trans hout)]
    · intro b x xs hb hx
      obtain ⟨t, ht⟩ : ∃ t, Convolution.images (shape :: shapes) kind (x :: xs) =
          .ok (image, b, t) := Convolution.images_eq_ok hshape himage hb hx
      have hcells : ¬(pool = 0 ∨ image.height / pool = 0 ∨ image.width / pool = 0 ∨
          image.channels = 0) := by omega
      refine ⟨largest image pool b t, ?_, rfl⟩
      simp only [forward, hshapes, firstOf_cons, himage, hparam, ht, ok_bind, Int.toNat_natCast,
        hcells, if_false]

/-! ## Normalization -/

theorem Normalization.build_eq_ok {kind : String} {shape : TensorShape}
    {shapes : List TensorShape} {channels : Nat} {weights : List (Weight α)}
    (hchannels : shape.featureSize kind = .ok channels)
    (h : Normalization.build kind (shape :: shapes) = .ok weights) :
    ∃ gamma beta, weights = [gamma, beta] ∧ gamma.name = "gamma" ∧ beta.name = "beta" ∧
      gamma.tensor.dims = [channels] ∧ beta.tensor.dims = [channels] := by
  rw [Normalization.build, firstOf_cons, ok_bind, hchannels, ok_bind] at h
  obtain ⟨gamma, hgamma, h⟩ := bind_eq_ok.mp h
  obtain ⟨beta, hbeta, h⟩ := bind_eq_ok.mp h
  obtain ⟨hgname, hgdims⟩ := constantWeight_eq_ok hgamma
  obtain ⟨hbname, hbdims⟩ := constantWeight_eq_ok hbeta
  exact ⟨gamma, beta, (Except.ok.inj h).symm, hgname, hbname, by simpa using hgdims,
    by simpa using hbdims⟩

/-- Stretching by a factor and a shift for every channel keeps the axes. -/
theorem Normalization.stretched_eq_ok {x gamma beta : Tensor α} {front : List Nat}
    {channels : Nat} (hx : x.dims = front ++ [channels]) (hgamma : gamma.dims = [channels])
    (hbeta : beta.dims = [channels]) :
    ∃ y, Normalization.stretched x gamma beta = .ok y ∧ y.dims = x.dims := by
  obtain ⟨y, hy, hydims⟩ : ∃ y, Tensor.zipWith (· * ·) x gamma = .ok y ∧
      y.dims = front ++ [channels] :=
    Tensor.zipWith_eq_ok (by rw [hx, hgamma, Tensor.broadcast?_last])
  obtain ⟨z, hz, hzdims⟩ : ∃ z, Tensor.zipWith (· + ·) y beta = .ok z ∧
      z.dims = front ++ [channels] :=
    Tensor.zipWith_eq_ok (by rw [hydims, hbeta, Tensor.broadcast?_last])
  exact ⟨z, by rw [Normalization.stretched, hy, ok_bind, hz], hzdims.trans hx.symm⟩

section Normalized

variable {layer : Layer α} {shape : TensorShape} {shapes : List TensorShape} {sizes : List Nat}
  {kind : String} {epsilon : Float}

omit [Scalar α] in
theorem Tensor.size_of_dims {t : Tensor α} {n : Nat} (h : t.dims = [n]) : t.size = n := by
  rw [Tensor.size, h, volume_cons, volume_nil, Nat.mul_one]

/-- What a layer finds under the names of its weights. -/
theorem Normalization.weights_eq_ok (hshape : shape.Settled sizes)
    (hbuild : Normalization.build kind (shape :: shapes) = .ok layer.weights) :
    ∃ gamma beta, layer.weight "gamma" = .ok gamma ∧ layer.weight "beta" = .ok beta ∧
      gamma.dims = [sizes.getLast hshape.nonempty] ∧
      beta.dims = [sizes.getLast hshape.nonempty] := by
  obtain ⟨gamma, beta, hweights, hgname, hbname, hgdims, hbdims⟩ :=
    Normalization.build_eq_ok (hshape.featureSize kind) hbuild
  refine ⟨gamma.tensor, beta.tensor, ?_, ?_, hgdims, hbdims⟩
  · exact hgname ▸ Layer.weight_eq_ok [] hweights (by simp)
  · exact hbname ▸ Layer.weight_eq_ok [gamma] hweights (by simp [hgname, hbname])

/-- Entries normalized in any groups can be stretched channel by channel, and keep their axes. -/
theorem Normalization.stretched_normalized (hshape : shape.Settled sizes)
    (hbuild : Normalization.build kind (shape :: shapes) = .ok layer.weights) :
    ∃ gamma beta, layer.weight "gamma" = .ok gamma ∧ layer.weight "beta" = .ok beta ∧
      gamma.size = sizes.getLast hshape.nonempty ∧
      ∀ (groups : Grouping) (epsilon : α) (x : Tensor α) (b : Nat), x.dims = b :: sizes →
        ∃ z, Normalization.stretched (normalized groups epsilon x) gamma beta = .ok z ∧
          z.dims = b :: sizes := by
  obtain ⟨gamma, beta, hgamma, hbeta, hgdims, hbdims⟩ := weights_eq_ok hshape hbuild
  refine ⟨gamma, beta, hgamma, hbeta, Tensor.size_of_dims hgdims, ?_⟩
  intro groups epsilon x b hx
  have hsplit : (normalized groups epsilon x).dims =
      (b :: sizes.dropLast) ++ [sizes.getLast hshape.nonempty] := by
    rw [List.cons_append, List.dropLast_append_getLast, ← hx]
    rfl
  obtain ⟨z, hz, hzdims⟩ := stretched_eq_ok hsplit hgdims hbdims
  exact ⟨z, hz, hzdims.trans hx⟩

theorem Normalization.forwardBatch_maps (hshape : shape.Settled sizes)
    (hepsilon : layer.params.get? "epsilon" = some (.real epsilon))
    (hbuild : Normalization.build kind (shape :: shapes) = .ok layer.weights) :
    Maps (Normalization.forwardBatch layer) sizes sizes := by
  obtain ⟨gamma, beta, hgamma, hbeta, -, hstretched⟩ := stretched_normalized hshape hbuild
  intro b x xs hb hx
  have hdims : x.toReal.dims = b :: sizes := by rw [Signal.dims_toReal, hx]
  have hempty : x.toReal.dims.isEmpty = false := by rw [hdims]; rfl
  obtain ⟨z, hz, hzdims⟩ :=
    hstretched (Grouping.ofBatch x.toReal.dims) (Scalar.ofFloat epsilon) x.toReal b hdims
  refine ⟨z, ?_, hzdims⟩
  simp only [forwardBatch, firstOf_cons, Entries.real_eq_ok hepsilon, hgamma, hbeta, ok_bind,
    hempty, Bool.false_eq_true, if_false]
  exact hz

theorem Normalization.forwardRows_maps (hshape : shape.Settled sizes)
    (hepsilon : layer.params.get? "epsilon" = some (.real epsilon))
    (hbuild : Normalization.build kind (shape :: shapes) = .ok layer.weights) :
    Maps (Normalization.forwardRows layer) sizes sizes := by
  obtain ⟨gamma, beta, hgamma, hbeta, hsize, hstretched⟩ := stretched_normalized hshape hbuild
  intro b x xs hb hx
  have hdims : x.toReal.dims = b :: sizes := by rw [Signal.dims_toReal, hx]
  have hlast : x.toReal.dims.getLast? = some gamma.size := by
    rw [hdims, List.getLast?_cons, List.getLast?_eq_some_getLast hshape.nonempty, hsize]
    rfl
  obtain ⟨z, hz, hzdims⟩ :=
    hstretched (Grouping.ofRows x.toReal.dims) (Scalar.ofFloat epsilon) x.toReal b hdims
  refine ⟨z, ?_, hzdims⟩
  simp only [forwardRows, firstOf_cons, Entries.real_eq_ok hepsilon, hgamma, hbeta, ok_bind,
    hlast, if_true]
  exact hz

end Normalized

/-! ## Recurrent layers -/

/-- A batch of samples is a batch of sequences in the sequence view of their shape. -/
theorem reshape_sequences {b : Nat} {sizes : List Nat} (hne : sizes ≠ [])
    (hpos : ∀ n ∈ sizes, 0 < n) {x : Signal α} (hb : 0 < b) (hx : x.dims = b :: sizes) :
    ∃ t, x.toReal.reshape [b, volume sizes.dropLast, sizes.getLast hne] = .ok t ∧
      t.dims = [b, volume sizes.dropLast, sizes.getLast hne] := by
  have hsplit : volume sizes = volume sizes.dropLast * sizes.getLast hne := by
    conv_lhs => rw [← List.dropLast_append_getLast hne, volume_append]
    simp
  refine Tensor.reshape_eq_ok ?_ ?_
  · rw [Signal.dims_toReal, hx, volume_cons b sizes, hsplit]
    simp
  · have hvolume : volume [b, volume sizes.dropLast, sizes.getLast hne] = b * volume sizes := by
      rw [hsplit]
      simp
    rw [hvolume]
    exact Nat.mul_pos hb (volume_pos hpos)

theorem Recurrent.build_eq_ok {params : Entries} {shape : TensorShape}
    {shapes : List TensorShape} {sequence : SequenceSize} {units : Nat}
    {weights : List (Weight α)} {g g' : Generator}
    (hsequence : shape.sequenceSize Recurrent.kind = .ok sequence)
    (hunits : params.integer "units" = .ok (units : Int))
    (h : (Recurrent.build params (shape :: shapes)).run g = (.ok weights, g')) :
    ∃ input hidden bias, weights = [input, hidden, bias] ∧
      (input.name = "w_ih" ∧ hidden.name = "w_hh" ∧ bias.name = "bias") ∧
      input.tensor.dims = [4 * units, sequence.features] ∧
      hidden.tensor.dims = [4 * units, units] ∧ bias.tensor.dims = [4 * units] := by
  rw [Recurrent.build, run_lift_bind_ok (firstOf_cons shape shapes), run_lift_bind_ok hsequence,
    run_lift_bind_ok hunits] at h
  obtain ⟨input, g₁, hinput, h⟩ := run_bind_eq_ok.mp h
  obtain ⟨hidden, g₂, hhidden, h⟩ := run_bind_eq_ok.mp h
  obtain ⟨bias, g₃, hbias, h⟩ := run_bind_eq_ok.mp h
  obtain ⟨rfl, -⟩ := run_pure_eq_ok.mp h
  obtain ⟨hiname, hidims⟩ := drawnWeight_eq_ok hinput
  obtain ⟨hhname, hhdims⟩ := drawnWeight_eq_ok hhidden
  obtain ⟨hbname, hbdims⟩ := constantWeight_eq_ok (run_lift_eq_ok.mp hbias).1
  have hgates : (4 * (units : Int)).toNat = 4 * units := by omega
  refine ⟨input, hidden, bias, rfl, ⟨hiname, hhname, hbname⟩, ?_, ?_, ?_⟩
  · simpa [hgates] using hidims
  · simpa [hgates] using hhdims
  · simpa [hgates] using hbdims

/-- What a layer finds under the names of its weights. -/
theorem Recurrent.weights_eq_ok {layer : Layer α} {shape : TensorShape}
    {shapes : List TensorShape} {sequence : SequenceSize} {units : Nat} {g g' : Generator}
    (hsequence : shape.sequenceSize Recurrent.kind = .ok sequence)
    (hunits : layer.params.integer "units" = .ok (units : Int))
    (hbuild : (Recurrent.build layer.params (shape :: shapes)).run g = (.ok layer.weights, g')) :
    ∃ input hidden bias, layer.weight "w_ih" = .ok input ∧ layer.weight "w_hh" = .ok hidden ∧
      layer.weight "bias" = .ok bias ∧ input.dims = [4 * units, sequence.features] ∧
      hidden.dims = [4 * units, units] ∧ bias.dims = [4 * units] := by
  obtain ⟨input, hidden, bias, hweights, ⟨hiname, hhname, hbname⟩, hdims⟩ :=
    Recurrent.build_eq_ok hsequence hunits hbuild
  have hinput : layer.weight "w_ih" = .ok input.tensor :=
    hiname ▸ Layer.weight_eq_ok [] hweights (by simp)
  have hhidden : layer.weight "w_hh" = .ok hidden.tensor :=
    hhname ▸ Layer.weight_eq_ok [input] hweights (by simp [hiname, hhname])
  have hbias : layer.weight "bias" = .ok bias.tensor :=
    hbname ▸ Layer.weight_eq_ok [input, hidden] hweights (by simp [hiname, hhname, hbname])
  exact ⟨_, _, _, hinput, hhidden, hbias, hdims⟩

/-- The cell of a layer that was built reads the features of the sequence view. -/
theorem Recurrent.cellOf_eq_ok {layer : Layer α} {shape : TensorShape}
    {shapes : List TensorShape} {sequence : SequenceSize} {units : Nat} {g g' : Generator}
    (hsequence : shape.sequenceSize Recurrent.kind = .ok sequence)
    (hunits : layer.params.integer "units" = .ok (units : Int))
    (hbuild : (Recurrent.build layer.params (shape :: shapes)).run g = (.ok layer.weights, g'))
    (features : Nat) : ∃ cell, cellOf layer features = .ok cell ∧ cell.units = units := by
  obtain ⟨input, hidden, bias, hinput, hhidden, hbias, -, hhdims, -⟩ :=
    Recurrent.weights_eq_ok hsequence hunits hbuild
  refine ⟨⟨units, features, input, hidden, bias⟩, ?_, rfl⟩
  simp only [cellOf, hinput, hhidden, hbias, ok_bind, hhdims]
  rfl

/-- The shape that a layer declares, with or without its steps. -/
theorem Recurrent.outputShape_eq_ok {params : Entries} {shape out : TensorShape}
    {shapes : List TensorShape} {sizes : List Nat} {units : Nat} (hshape : shape.Settled sizes)
    (hunits : 0 < units) (hparam : params.integer "units" = .ok (units : Int))
    (hout : Recurrent.outputShape params (shape :: shapes) = .ok out) :
    out.Settled (if keepsSteps params then [volume sizes.dropLast, units] else [units]) := by
  have hsteps : 0 < volume sizes.dropLast :=
    volume_pos fun n hn => hshape.positive n ((List.dropLast_sublist sizes).subset hn)
  rw [Recurrent.outputShape, firstOf_cons, ok_bind, hshape.sequenceSize kind, ok_bind, hparam,
    ok_bind] at hout
  cases hkeeps : keepsSteps params with
  | true =>
      obtain ⟨s, hs, hsettled⟩ := TensorShape.ofSample_settled
        (List.cons_ne_nil (volume sizes.dropLast) [units]) (by simp [hsteps, hunits])
      rw [hkeeps] at hout
      rwa [← Except.ok.inj (hs.symm.trans hout)]
  | false =>
      obtain ⟨s, hs, hsettled⟩ := TensorShape.ofSample_settled
        (List.cons_ne_nil units []) (by simp [hunits])
      rw [hkeeps] at hout
      rwa [← Except.ok.inj (hs.symm.trans hout)]

theorem Recurrent.forward_maps {layer : Layer α} {shape : TensorShape}
    {shapes : List TensorShape} {sizes : List Nat} {g g' : Generator}
    (hfit : layer.params.Fit Kernel.recurrent.settings)
    (hshapes : layer.inputShapes = shape :: shapes) (hshape : shape.Settled sizes)
    (hout : Recurrent.outputShape layer.params (shape :: shapes) = .ok layer.outputShape)
    (hbuild : (Recurrent.build layer.params (shape :: shapes)).run g = (.ok layer.weights, g')) :
    ∃ out, layer.outputShape.Settled out ∧ Maps (Recurrent.forward layer) sizes out := by
  obtain ⟨units, hunits, hparam⟩ :
      ∃ n : Nat, 0 < n ∧ layer.params.integer "units" = .ok (n : Int) :=
    hfit.size List.mem_cons_self
  have hsequence := hshape.sequenceSize kind
  obtain ⟨cell, hcell, hwidth⟩ :=
    Recurrent.cellOf_eq_ok hsequence hparam hbuild (sizes.getLast hshape.nonempty)
  refine ⟨_, Recurrent.outputShape_eq_ok hshape hunits hparam hout, ?_⟩
  intro b x xs hb hx
  obtain ⟨t, ht, -⟩ := reshape_sequences hshape.nonempty hshape.positive hb hx
  have hsteps : 0 < volume sizes.dropLast :=
    volume_pos fun n hn => hshape.positive n ((List.dropLast_sublist sizes).subset hn)
  have hsign : ¬(units : Int) < 0 := by omega
  have hempty : ¬(keepsSteps layer.params = true ∧ volume sizes.dropLast = 0) := by omega
  refine ⟨run cell b (volume sizes.dropLast) t (keepsSteps layer.params), ?_, ?_⟩
  · simp only [forward, hshapes, firstOf_cons, hsequence, hparam, Signal.batch_eq_ok hx, ht,
      hcell, ok_bind, hsign, hempty, if_false]
  · cases keepsSteps layer.params with
    | true => simp [run, hwidth]
    | false => simp [run, hwidth]

/-! ## Flattening and dropout -/

/-- The shape of a sample in one row. -/
theorem Kernel.flatShape_settled {shape s : TensorShape} {shapes : List TensorShape}
    {sizes : List Nat} (hshape : shape.Settled sizes)
    (hout : Kernel.flatShape (shape :: shapes) = .ok s) : s.Settled [volume sizes] := by
  rw [Kernel.flatShape, firstOf_cons, ok_bind, hshape.fixedSizes, ok_bind] at hout
  rw [← Except.ok.inj hout]
  exact ⟨rfl, List.cons_ne_nil _ _, by simpa using volume_pos hshape.positive⟩

omit [Scalar α] in
theorem Signal.flattened_eq_ok {x : Signal α} {b : Nat} {sizes : List Nat} (hb : 0 < b)
    (hpos : ∀ n ∈ sizes, 0 < n) (hx : x.dims = b :: sizes) :
    ∃ y, x.flattened = .ok y ∧ y.dims = [b, volume sizes] := by
  have hrow : x.size / b = volume sizes := by
    rw [Signal.size, hx, volume_cons, Nat.mul_div_cancel_left _ hb]
  have hvolume : volume [b, volume sizes] = volume x.dims := by
    rw [hx]
    simp
  have hne : ¬b = 0 := by omega
  obtain ⟨y, hy, hydims⟩ := Signal.reshape_eq_ok hvolume
    (volume_pos (by simp [hb, volume_pos hpos]))
  refine ⟨y, ?_, hydims⟩
  simp only [Signal.flattened, Signal.batch_eq_ok hx, ok_bind, hne, if_false, hrow]
  exact hy

theorem Dropout.forward_run {layer : Layer α} {rate : Float} {x : Signal α}
    {xs : List (Signal α)} (hrate : layer.params.get? "rate" = some (.real rate))
    (training : Bool) (g : Generator) :
    ∃ y g', (Dropout.forward layer (x :: xs) training).run g = (.ok y, g') ∧ y.dims = x.dims := by
  rw [Dropout.forward, run_lift_bind_ok (firstOf_cons x xs),
    run_lift_bind_ok (Entries.real_eq_ok hrate)]
  split
  · exact ⟨_, _, rfl, Signal.dims_toReal x⟩
  · exact ⟨x, g, rfl, rfl⟩

end BlockNet
