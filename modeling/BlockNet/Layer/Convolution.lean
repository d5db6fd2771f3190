import BlockNet.Layer.Activation
/-! # Convolutions of images

A kernel of `k × k` pixels slides over an image whose border counts as zero, so that the result
is as large as the image. Of the cells that the border needs, `(k - 1) / 2` come before the image
and the rest after it. -/

namespace BlockNet.Convolution

/-- The name of the layer in faults. -/
def kind : String := "Conv2D"

/-- The image keeps its size and has a channel per filter. -/
def outputShape (params : Entries) (inputs : List TensorShape) : Outcome TensorShape := do
  let image ← (← firstOf inputs).imageSize kind
  let filters ← params.integer "filters"
  TensorShape.ofSample [image.height, image.width, filters]

variable {α : Type} [Scalar α]

/-- A drawn kernel and a constant bias per filter. -/
def build (params : Entries) (inputs : List TensorShape) : Draws (List (Weight α)) := do
  let image ← (← firstOf inputs : TensorShape).imageSize kind
  let k ← params.integer "kernel_size"
  let filters ← params.integer "filters"
  let kernel ← drawnWeight "kernel" [k, k, (image.channels : Int), filters]
    (k * k * image.channels) (k * k * filters)
  let bias ← biasWeight params filters
  return kernel :: bias

/-- The cells of border before the image. -/
def border (k : Nat) : Nat := (k - 1) / 2

/-- The place in the image that an offset of the kernel meets at a place of the result, if it is
inside. -/
def meets? (extent k place offset : Nat) : Option Nat :=
  if border k ≤ place + offset ∧ place + offset - border k < extent then
    some (place + offset - border k)
  else none

/-- The sum over the `k × k` offsets at a place, of a value of the offsets and the place met. -/
def overKernel (image : ImageSize) (k i j : Nat) (value : Nat → Nat → Nat → Nat → α) : α :=
  Scalar.sum k fun u => match meets? image.height k i u with
    | none => 0
    | some row => Scalar.sum k fun v => match meets? image.width k j v with
      | none => 0
      | some column => value u v row column

/-- The position of a channel of a pixel among the entries of a batch of images. -/
def pixel (image : ImageSize) (channels b row column channel : Nat) : Nat :=
  ((b * image.height + row) * image.width + column) * channels + channel

/-- The position of an entry of the kernel. -/
def cell (k channels filters u v channel filter : Nat) : Nat :=
  ((u * k + v) * channels + channel) * filters + filter

/-- The convolution of a batch of images. -/
def convolve (image : ImageSize) (k filters batch : Nat) (x kernel : Tensor α)
    (bias : Option (Tensor α)) : Tensor α :=
  Tensor.ofFn [batch, image.height, image.width, filters] fun n =>
    let f := n % filters
    let j := n / filters % image.width
    let i := n / filters / image.width % image.height
    let b := n / filters / image.width / image.height
    (bias.map fun t => t.entry f).getD 0 + overKernel image k i j fun u v row column =>
      Scalar.sum image.channels fun c =>
        x.entry (pixel image image.channels b row column c)
          * kernel.entry (cell k image.channels filters u v c f)

/-- The batch of images that an input is viewed as. -/
def images (shapes : List TensorShape) (kind : String) (inputs : List (Signal α)) :
    Outcome (ImageSize × Nat × Tensor α) := do
  let image ← (← firstOf shapes).imageSize kind
  let input ← firstOf inputs
  let batch ← input.batch
  let x ← input.toReal.reshape [batch, image.height, image.width, image.channels]
  .ok (image, batch, x)

/-- The layer's result. An image or a kernel without cells, or a kernel without filters, is
refused, and of an image without channels there is nothing to give. -/
def forward (layer : Layer α) (inputs : List (Signal α)) : Outcome (Tensor α) := do
  let (image, batch, x) ← images layer.inputShapes kind inputs
  let kernel ← layer.weight "kernel"
  let k := kernel.dims.getD 0 0
  let filters := kernel.dims.getD 3 0
  if k = 0 ∨ filters = 0 ∨ image.height = 0 ∨ image.width = 0 then mishap .badTensor
  else
    let filters := if image.channels = 0 then 0 else filters
    Activation.applyNamed layer.params
      (convolve image k filters batch x kernel (layer.weight? "bias"))

/-- The slopes at input and weights, from the result `y` and the slopes `g` at it. -/
def slopes (layer : Layer α) (x y g : Tensor α) : Slopes α :=
  let kernel := (layer.weight? "kernel").getD (Tensor.filled [0, 0, 0, 0] 0)
  let k := kernel.dims.getD 0 0
  let channels := kernel.dims.getD 2 0
  let filters := kernel.dims.getD 3 0
  let image : ImageSize := ⟨y.dims.getD 1 0, y.dims.getD 2 0, channels⟩
  let batch := y.dims.getD 0 0
  let g := (Activation.named layer.params).slopes y g
  let places := batch * image.height * image.width
  let input := Tensor.ofFn x.dims fun n =>
    let c := n % channels
    let column := n / channels % image.width
    let row := n / channels / image.width % image.height
    let b := n / channels / image.width / image.height
    Scalar.sum k fun u => Scalar.sum k fun v =>
      if u ≤ row + border k ∧ row + border k - u < image.height
          ∧ v ≤ column + border k ∧ column + border k - v < image.width then
        Scalar.sum filters fun f =>
          g.entry (pixel image filters b (row + border k - u) (column + border k - v) f)
            * kernel.entry (cell k channels filters u v c f)
      else 0
  let weight := fun w : Weight α =>
    if w.name = "bias" then
      Tensor.ofFn [filters] fun f => Scalar.sum places fun p => g.entry (p * filters + f)
    else Tensor.ofFn kernel.dims fun n =>
      let f := n % filters
      let c := n / filters % channels
      let v := n / filters / channels % k
      let u := n / filters / channels / k
      Scalar.sum places fun p =>
        let b := p / image.width / image.height
        match meets? image.height k (p / image.width % image.height) u,
            meets? image.width k (p % image.width) v with
        | some row, some column =>
            x.entry (pixel image channels b row column c) * g.entry (p * filters + f)
        | _, _ => 0
  { inputs := [input], weights := layer.weights.map weight }

end BlockNet.Convolution
