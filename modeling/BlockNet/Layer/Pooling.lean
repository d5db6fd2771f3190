import BlockNet.Layer.Convolution
/-! # Pooling of images

An image is cut into squares of `pool × pool` pixels, and the largest pixel of a square stands
for it. Pixels that fill no whole square are dropped. -/

namespace BlockNet.Pooling

/-- The name of the layer in faults. -/
def kind : String := "MaxPooling2D"

/-- Height and width are divided by the setting `pool_size`; something must be left of both. -/
def outputShape (params : Entries) (inputs : List TensorShape) : Outcome TensorShape := do
  let image ← (← firstOf inputs).imageSize kind
  let pool ← params.integer "pool_size"
  if pool = 0 then mishap .zeroDivisor
  else
    let height := Int.fdiv image.height pool
    let width := Int.fdiv image.width pool
    if height = 0 ∨ width = 0 then
      .error (.unresolvedShape kind (s!"pool_size {pool} exceeds input {image.height}x{image.width}"))
    else TensorShape.ofSample [height, width, image.channels]

variable {α : Type} [Scalar α]

/-- The position of a pixel of the square that stands behind a position of the result. -/
def member (image : ImageSize) (pool n k : Nat) : Nat :=
  let width := image.width / pool
  let c := n % image.channels
  let j := n / image.channels % width
  let i := n / image.channels / width % (image.height / pool)
  let b := n / image.channels / width / (image.height / pool)
  Convolution.pixel image image.channels b (i * pool + k / pool) (j * pool + k % pool) c

/-- The largest pixel of every square of a batch of images. -/
def largest (image : ImageSize) (pool batch : Nat) (x : Tensor α) : Tensor α :=
  Tensor.ofFn [batch, image.height / pool, image.width / pool, image.channels] fun n =>
    Scalar.largest (pool * pool - 1) fun k => x.entry (member image pool n k)

/-- The layer's result. -/
def forward (layer : Layer α) (inputs : List (Signal α)) : Outcome (Tensor α) := do
  let image ← (← firstOf layer.inputShapes).imageSize kind
  let pool ← layer.params.integer "pool_size"
  let (_, batch, x) ← Convolution.images layer.inputShapes kind inputs
  let pool := pool.toNat
  if pool = 0 ∨ image.height / pool = 0 ∨ image.width / pool = 0 ∨ image.channels = 0 then
    mishap .badTensor
  else .ok (largest image pool batch x)

/-- The place of the first largest of the values of a function at `0, …, n`. -/
def firstLargest (n : Nat) (f : Nat → α) : Nat :=
  n.fold (fun k _ best =>
    if Scalar.less (f best) (f (k + 1)) || Scalar.isNan (f (k + 1)) then k + 1 else best) 0

/-- The slopes at the input: the slope at a square belongs to its first largest pixel. -/
def slopes (layer : Layer α) (x g : Tensor α) : Slopes α :=
  let image := match (firstOf layer.inputShapes).bind (·.imageSize kind) with
    | .ok image => image
    | .error _ => ⟨0, 0, 0⟩
  let pool := match layer.params.integer "pool_size" with
    | .ok pool => pool.toNat
    | .error _ => 0
  let winner := fun n =>
    member image pool n (firstLargest (pool * pool - 1) fun k => x.entry (member image pool n k))
  { inputs := [Tensor.gather x.dims g.size winner g.entry], weights := [] }

end BlockNet.Pooling
