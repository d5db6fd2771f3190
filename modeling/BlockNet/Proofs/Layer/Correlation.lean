import BlockNet.Proofs.Compilation.Built
import BlockNet.Proofs.Layer.Entries

/-! # Convolutions as sums

Every entry of the result of a convolution is the activation of the bias of its filter and a sum over
the offsets of the kernel and the channels of the image. Offsets that meet the border add nothing. Of
the border that a kernel of `k` cells needs, `(k - 1) / 2` cells come before the image. -/

namespace BlockNet

variable {α : Type} [Scalar α]

namespace Convolution

/-- What a layer convolves with: the image that samples are viewed as, a square kernel of `extent`
cells from the channels of the image to filters, and an activation. -/
structure Parts (layer : Layer α) where
  image : ImageSize
  extent : Nat
  filters : Nat
  kernel : Tensor α
  activation : Activation
  extent_pos : 0 < extent
  image_eq : (do (← firstOf layer.inputShapes).imageSize kind) = Except.ok image
  kernel_eq : layer.weight "kernel" = .ok kernel
  kernel_dims : kernel.dims = [extent, extent, image.channels, filters]
  bias_dims : ∀ bias, layer.weight? "bias" = some bias → bias.dims = [filters]
  activation_eq : (do Activation.ofValue (← layer.params.require "activation")) = .ok activation

namespace Parts

variable {layer : Layer α} (p : Parts layer)

/-- What an offset of the kernel adds at a pixel, for a channel and a filter, where the input is read
as a batch of images. -/
def tap (batch : Nat) (x : Tensor α) (b i j f u v c : Nat) : α :=
  let row : Int := i + u - ((p.extent - 1) / 2 : Nat)
  let column : Int := j + v - ((p.extent - 1) / 2 : Nat)
  if 0 ≤ row ∧ row < p.image.height ∧ 0 ≤ column ∧ column < p.image.width then
    x.under [batch, p.image.height, p.image.width, p.image.channels]
        [b, row.toNat, column.toNat, c] *
      p.kernel.under [p.extent, p.extent, p.image.channels, p.filters] [u, v, c, f]
  else 0

/-- The number at a pixel for a filter, before the activation. -/
def correlation (batch : Nat) (x : Tensor α) (b i j f : Nat) : α :=
  (layer.weight? "bias").elim 0 (fun bias => bias.under [p.filters] [f]) +
    Scalar.sum p.extent fun u => Scalar.sum p.extent fun v => Scalar.sum p.image.channels fun c =>
      p.tap batch x b i j f u v c

end Parts

/-! ## Offsets -/

omit [Scalar α] in
/-- The place that an offset meets, counted as a whole number. -/
theorem meets?_eq_ite (extent k place offset : Nat) : meets? extent k place offset =
    if 0 ≤ (place + offset - border k : Int) ∧ (place + offset - border k : Int) < extent then
      some (place + offset - border k : Int).toNat
    else none := by
  rw [meets?]
  split
  · rw [if_pos (by omega)]
    congr 1
    omega
  · rw [if_neg (by omega)]

/-- What is met inside the image is summed up; the border adds zeros. -/
theorem overKernel_eq_sum (hzero : (0 : α) + 0 = 0) (image : ImageSize) (k i j channels : Nat)
    (value : Nat → Nat → Nat → Nat → Nat → α) :
    (overKernel image k i j fun u v row column =>
        Scalar.sum channels fun c => value u v row column c) =
      Scalar.sum k fun u => Scalar.sum k fun v => Scalar.sum channels fun c =>
        let row : Int := i + u - border k
        let column : Int := j + v - border k
        if 0 ≤ row ∧ row < image.height ∧ 0 ≤ column ∧ column < image.width then
          value u v row.toNat column.toNat c
        else 0 := by
  refine Scalar.sum_congr fun u _ => ?_
  rw [meets?_eq_ite]
  by_cases hrow : 0 ≤ (i + u - border k : Int) ∧ (i + u - border k : Int) < image.height
  · simp only [hrow, and_self, if_true, true_and]
    refine Scalar.sum_congr fun v _ => ?_
    rw [meets?_eq_ite]
    by_cases hcolumn : 0 ≤ (j + v - border k : Int) ∧ (j + v - border k : Int) < image.width
    · simp only [hcolumn, and_self, if_true]
    · simp only [hcolumn, if_false, Scalar.sum_zero hzero]
  · -- above and below the image every column adds a sum of zeros
    have hout : ∀ v, ¬(0 ≤ (i + u - border k : Int) ∧ (i + u - border k : Int) < image.height ∧
        0 ≤ (j + v - border k : Int) ∧ (j + v - border k : Int) < image.width) :=
      fun v h => hrow ⟨h.1, h.2.1⟩
    simp only [hrow, hout, if_false, Scalar.sum_zero hzero]

/-! ## Entries -/

namespace Parts

variable {layer : Layer α} (p : Parts layer)

/-- The convolution, entry by entry. -/
theorem entry_convolve (hzero : (0 : α) + 0 = 0) (batch : Nat) {x t : Tensor α}
    (ht : t.entries = x.entries) {b i j f : Nat} (hb : b < batch) (hi : i < p.image.height)
    (hj : j < p.image.width) (hf : f < p.filters) :
    (convolve p.image p.extent p.filters batch t p.kernel (layer.weight? "bias")).entry
        (((b * p.image.height + i) * p.image.width + j) * p.filters + f) =
      p.correlation batch x b i j f := by
  have hplace : ((b * p.image.height + i) * p.image.width + j) * p.filters + f <
      volume [batch, p.image.height, p.image.width, p.filters] := by
    rw [← Tensor.position_quadruple batch]
    exact Tensor.position_lt (by simp [hb, hi, hj, hf])
  have hread := Tensor.entry_congr ht
  rw [convolve, Tensor.entry_ofFn hplace]
  simp only [Tensor.mod_place hf, Tensor.div_place hf, Tensor.mod_place hj, Tensor.div_place hj,
    Tensor.mod_place hi, Tensor.div_place hi]
  rw [overKernel_eq_sum hzero, correlation]
  refine congrArg₂ (· + ·) ?_ ?_
  · cases layer.weight? "bias" with
    | none => rfl
    | some bias => simp [Tensor.under]
  · simp only [tap, Tensor.under, Tensor.position_quadruple, hread, border, pixel, cell]

/-! ## Layers as they are made -/

omit p in
/-- A bias that a layer starts with has a number per filter. -/
theorem bias_of_build {params : Entries} {shape : TensorShape} {shapes : List TensorShape}
    {filters : Nat} {g g' : Generator} (hfilters : params.integer "filters" = .ok (filters : Int))
    (h : (build params (shape :: shapes)).run g = (.ok layer.weights, g')) :
    ∀ bias, layer.weight? "bias" = some bias → bias.dims = [filters] := by
  rw [build, run_lift_bind_ok (firstOf_cons shape shapes)] at h
  obtain ⟨image, g₁, -, h⟩ := run_bind_eq_ok.mp h
  obtain ⟨k, g₂, -, h⟩ := run_bind_eq_ok.mp h
  rw [run_lift_bind_ok hfilters] at h
  obtain ⟨kernel, g₃, hkernel, h⟩ := run_bind_eq_ok.mp h
  obtain ⟨biases, g₄, hbiases, h⟩ := run_bind_eq_ok.mp h
  obtain ⟨hweights, -⟩ := run_pure_eq_ok.mp h
  have hname : (kernel.name == "bias") = false := by
    rw [(drawnWeight_eq_ok hkernel).1]
    decide
  have hall : ∀ w ∈ biases, w.tensor.dims = [filters] := by
    obtain ⟨hbiases, -⟩ := run_lift_eq_ok.mp hbiases
    rw [biasWeight] at hbiases
    split at hbiases
    · obtain ⟨w, hw, hbiases⟩ := bind_eq_ok.mp hbiases
      obtain rfl := Except.ok.inj hbiases
      simpa using (constantWeight_eq_ok hw).2
    · obtain rfl := Except.ok.inj hbiases
      simp
  intro bias hbias
  rw [Layer.weight?, ← hweights, List.find?_cons, hname] at hbias
  obtain ⟨w, hw, rfl⟩ := Option.map_eq_some_iff.mp hbias
  exact hall w (List.mem_of_find?_eq_some hw)

omit p in
/-- A layer that was made for settled shapes has all its parts, and none of them is empty. -/
theorem of_built {sizes : List (List Nat)} (h : Kernel.convolution.Built layer sizes) :
    ∃ p : Parts layer, 0 < p.filters ∧ 0 < p.image.height ∧ 0 < p.image.width ∧
      0 < p.image.channels := by
  obtain ⟨shape, shapes, s, rest, hlist, -, hs⟩ := h.first
  obtain ⟨g, g', hbuild⟩ := h.weights
  have hout := h.output
  rw [hlist] at hbuild hout
  rw [Kernel.outputShape, outputShape, firstOf_cons, ok_bind] at hout
  obtain ⟨image, himage, -⟩ := bind_eq_ok.mp hout
  obtain ⟨hheight, hwidth, hchannels, -⟩ :=
    ImageSize.ofSizes?_eq_some (hs.ofSizes?_of_imageSize himage) hs.positive
  obtain ⟨filters, hfilters, hparam⟩ :
      ∃ n : Nat, 0 < n ∧ layer.params.integer "filters" = .ok (n : Int) :=
    h.fit.size List.mem_cons_self
  obtain ⟨k, hk, hsize⟩ :
      ∃ n : Nat, 0 < n ∧ layer.params.integer "kernel_size" = .ok (n : Int) :=
    h.fit.size (List.mem_cons_of_mem _ List.mem_cons_self)
  obtain ⟨v, a, hnamed, hactivation⟩ := h.fit.activation
    (List.mem_cons_of_mem _ (List.mem_cons_of_mem _ List.mem_cons_self))
  obtain ⟨kernel, bias, hweights, hname, hdims⟩ := build_eq_ok himage hsize hparam hbuild
  exact ⟨{
    image
    extent := k
    filters
    kernel := kernel.tensor
    activation := a
    extent_pos := hk
    image_eq := by rw [hlist, firstOf_cons, ok_bind, himage]
    kernel_eq := hname ▸ Layer.weight_eq_ok [] hweights (by simp)
    kernel_dims := hdims
    bias_dims := bias_of_build hparam hbuild
    activation_eq := by rw [hnamed, ok_bind, hactivation] }, hfilters, hheight, hwidth, hchannels⟩

/-! ## Results -/

/-- A batch of as many entries as images of the layer have is read as images. -/
theorem images_read {batch : Nat} {x : Signal α}
    (hx : x.ReadsAs batch [p.image.height, p.image.width, p.image.channels])
    (xs : List (Signal α)) : ∃ t, images layer.inputShapes kind (x :: xs) =
      .ok (p.image, batch, t) ∧ t.entries = x.toReal.entries := by
  obtain ⟨shape, hshape, himage⟩ := bind_eq_ok.mp p.image_eq
  obtain ⟨t, ht, -, hentries⟩ := hx.reshape_eq
  refine ⟨t, ?_, hentries⟩
  simp only [images, hshape, himage, firstOf_cons, hx.batch_eq, ht, ok_bind]

/-- The layer on a batch of images: a convolution and its activation, unless there is no image or no
filter. -/
theorem forward_eq {batch : Nat} {x : Signal α} {xs : List (Signal α)} {t : Tensor α}
    (ht : images layer.inputShapes kind (x :: xs) = .ok (p.image, batch, t)) :
    forward layer (x :: xs) =
      if p.filters = 0 ∨ p.image.height = 0 ∨ p.image.width = 0 then mishap .badTensor
      else p.activation.apply (convolve p.image p.extent
        (if p.image.channels = 0 then 0 else p.filters) batch t p.kernel (layer.weight? "bias")) := by
  obtain ⟨named, hnamed, hactivation⟩ := bind_eq_ok.mp p.activation_eq
  have hextent : ¬p.extent = 0 := Nat.ne_of_gt p.extent_pos
  simp only [forward, ht, p.kernel_eq, p.kernel_dims, Activation.applyNamed, hnamed, hactivation,
    ok_bind, List.getD_cons_zero, List.getD_cons_succ, hextent, false_or]

end Parts

/-- On every input of as many entries a sample as its image has, a layer gives at each pixel the
activation, across the filters, of the bias and the sum over the offsets of its kernel and all
channels. An image without pixels and a kernel without filters are refused, and of an image without
channels nothing is given. -/
theorem forward_correlates (hzero : (0 : α) + 0 = 0) {layer : Layer α} (p : Parts layer)
    {batch : Nat} {x : Signal α}
    (hx : x.ReadsAs batch [p.image.height, p.image.width, p.image.channels])
    (xs : List (Signal α)) (mode : PassMode) :
    (0 < p.filters → 0 < p.image.height → 0 < p.image.width → 0 < p.image.channels →
      ∃ y : Tensor α, Kernel.convolution.forward layer (x :: xs) mode = pure (.real y) ∧
        y.dims = [batch, p.image.height, p.image.width, p.filters] ∧
        ∀ b < batch, ∀ i < p.image.height, ∀ j < p.image.width, ∀ f < p.filters,
          y.under [batch, p.image.height, p.image.width, p.filters] [b, i, j, f] =
            p.activation.value p.filters (p.correlation batch x.toReal b i j) f) ∧
    (p.filters = 0 ∨ p.image.height = 0 ∨ p.image.width = 0 →
      Kernel.convolution.forward layer (x :: xs) mode = throw (.mishap .badTensor)) ∧
    (p.image.channels = 0 → ∀ g g' y,
      (Kernel.convolution.forward layer (x :: xs) mode).run g = (.ok y, g') → y.size = 0) := by
  obtain ⟨t, ht, hentries⟩ := p.images_read hx xs
  have hforward := p.forward_eq ht
  have hkernel : Kernel.convolution.forward layer (x :: xs) mode =
      (liftM (forward layer (x :: xs)) >>= fun y => pure (.real y)) := rfl
  refine ⟨?_, ?_, ?_⟩
  · intro hfilters hheight hwidth hchannels
    rw [if_neg (by omega), if_neg (by omega)] at hforward
    let out := convolve p.image p.extent p.filters batch t p.kernel (layer.weight? "bias")
    have hdims : out.dims = [batch, p.image.height, p.image.width] ++ [p.filters] := rfl
    obtain ⟨y, hy, hydims, hvalue⟩ := p.activation.apply_value hdims hfilters
    refine ⟨y, by rw [hkernel, hforward, hy]; rfl, hydims, ?_⟩
    intro b hb i hi j hj f hf
    have hpixel : (b * p.image.height + i) * p.image.width + j <
        volume [batch, p.image.height, p.image.width] := by
      rw [← Tensor.position_triple batch]
      exact Tensor.position_lt (by simp [hb, hi, hj])
    rw [Tensor.under, Tensor.position_quadruple, hvalue _ hpixel f hf]
    exact p.activation.value_congr hf fun g hg =>
      p.entry_convolve hzero batch hentries hb hi hj hg
  · intro hempty
    rw [hkernel, hforward, if_pos hempty]
    rfl
  · intro hchannels g g' y hrun
    rw [hkernel, run_lift_bind_eq_ok] at hrun
    obtain ⟨out, hout, hrun⟩ := hrun
    obtain ⟨rfl, -⟩ := run_pure_eq_ok.mp hrun
    rw [hforward, if_pos hchannels] at hout
    split at hout
    · cases hout
    · rw [Signal.size, Signal.dims, Activation.dims_of_apply hout, convolve, Tensor.dims_ofFn]
      simp

/-- A convolution by a kernel of an even size, with shares across its filters. -/
def evenGraph : Graph where
  nodes := [⟨"conv", "Conv2D", [(.text "filters", .int 2), (.text "kernel_size", .int 2),
    (.text "activation", .text "softmax")], .null, false, .null, []⟩]
  connections := []

/-- Images of two by two pixels, in a row. -/
def evenInput : TensorShape := TensorShape.batched [.size 4] .float32

theorem forward_correlates_even : (0 : Float) + 0 = 0 ∧
    ∃ (m : Model Float) (L : Layer Float) (p : Parts L),
      (compile Stock.catalog (.int 0) evenGraph (some (.shape evenInput))).1 = .ok m ∧
      m.layers = [L] ∧ p.image = ⟨2, 2, 1⟩ ∧ p.extent = 2 ∧ p.filters = 2 ∧
      ∀ mode, ∃ y : Tensor Float,
        Kernel.convolution.forward L [.real (Tensor.filled [3, 4] 1)] mode = pure (.real y) ∧
        y.dims = [3, 2, 2, 2] ∧ ∀ b < 3, ∀ i < 2, ∀ j < 2, ∀ f < 2,
          y.under [3, 2, 2, 2] [b, i, j, f] =
            p.activation.value 2 (p.correlation 3 (Tensor.filled [3, 4] 1) b i j) f := by
  have hzero : (0 : Float) + 0 = 0 := rfl
  have hrun : ((compile Stock.catalog (.int 0) evenGraph
      (some (.shape evenInput))).1.toOption.map fun m : Model Float => m.layers.map fun L =>
        (L.kind, L.inputShapes, (L.weight "kernel").toOption.map (·.dims))) =
          some [("Conv2D", [evenInput], some [2, 2, 1, 2])] := by
    decide +kernel
  have hinput : evenInput.Settled [4] := ⟨rfl, by decide, by decide⟩
  obtain ⟨m, L, hok, hL, hbuilt, hshapes, hkernel⟩ :=
    Compilation.compile_lone (k := .convolution) hinput hrun
  obtain ⟨p, -⟩ := Parts.of_built hbuilt
  have hview : (do (← firstOf [evenInput]).imageSize kind : Outcome ImageSize).toOption =
      some ⟨2, 2, 1⟩ := by
    decide +kernel
  have himage : p.image = ⟨2, 2, 1⟩ := by
    have himage := p.image_eq
    rw [hshapes, toOption_eq_some.mp hview] at himage
    exact (Except.ok.inj himage).symm
  obtain ⟨hextent, -, -, hfilters⟩ : p.extent = 2 ∧ p.extent = 2 ∧ p.image.channels = 1 ∧
      p.filters = 2 := by
    rw [p.kernel_eq] at hkernel
    simpa [Except.toOption, p.kernel_dims] using hkernel
  refine ⟨hzero, m, L, p, hok, hL, himage, hextent, hfilters, fun mode => ?_⟩
  have hreads : (Signal.real (Tensor.filled [3, 4] (1 : Float))).ReadsAs 3
      [p.image.height, p.image.width, p.image.channels] := by
    rw [himage]
    exact ⟨⟨[4], rfl, rfl⟩, fun hempty => by cases hempty⟩
  have hcorrelates := (forward_correlates hzero p hreads [] mode).1
  simp only [himage, hfilters] at hcorrelates
  exact hcorrelates (by decide) (by decide) (by decide) (by decide)

end Convolution

end BlockNet
