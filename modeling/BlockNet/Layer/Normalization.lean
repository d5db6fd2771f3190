import BlockNet.Layer.Basic
/-! # Normalization

Entries are shifted and scaled so that a group of them has mean zero and variance one, and then
stretched by learned factors. The groups are the channels of a batch, or the rows of a tensor. -/

namespace BlockNet.Normalization

/-- The shape that enters is kept. -/
def outputShape (inputs : List TensorShape) : Outcome TensorShape := firstOf inputs

variable {α : Type} [Scalar α]

/-- A factor of one and a shift of zero per channel. -/
def build (kind : String) (inputs : List TensorShape) : Outcome (List (Weight α)) := do
  let channels ← (← firstOf inputs).featureSize kind
  let gamma ← constantWeight "gamma" [(channels : Int)] (.real 1)
  let beta ← constantWeight "beta" [(channels : Int)] (.real 0)
  .ok [gamma, beta]

/-- The mean and the root of the variance of a group of `n` numbers, the variance raised by
`epsilon`. -/
def moments (epsilon : α) (n : Nat) (f : Nat → α) : α × α :=
  let mean := Scalar.mean n f
  (mean, Scalar.sqrt (Scalar.mean n (fun k => Scalar.square (f k - mean)) + epsilon))

/-- How the entries of a tensor fall into groups. -/
structure Grouping where
  count : Nat
  size : Nat
  groupOf : Nat → Nat
  member : Nat → Nat → Nat

/-- The groups of a batch: one per channel, or a single one if there is only one sample or only
one axis. -/
def Grouping.ofBatch (dims : List Nat) : Grouping :=
  let size := volume dims
  let channels := dims.getLast?.getD 1
  if dims.length ≤ 1 ∨ dims.headD 0 ≤ 1 then ⟨1, size, fun _ => 0, fun _ k => k⟩
  else ⟨channels, size / channels, fun i => i % channels, fun c k => k * channels + c⟩

/-- The groups of rows. -/
def Grouping.ofRows (dims : List Nat) : Grouping :=
  let width := dims.getLast?.getD 1
  ⟨volume dims / width, width, fun i => i / width, fun r k => r * width + k⟩

/-- Mean and root of variance of every group. -/
def Grouping.moments (groups : Grouping) (epsilon : α) (x : Tensor α) : Array (α × α) :=
  Array.ofFn fun c : Fin groups.count =>
    Normalization.moments epsilon groups.size fun k => x.entry (groups.member c k)

/-- The entries with mean zero and variance one in every group. -/
def normalized (groups : Grouping) (epsilon : α) (x : Tensor α) : Tensor α :=
  let stats := groups.moments epsilon x
  Tensor.ofFn x.dims fun i =>
    let (mean, spread) := stats.getD (groups.groupOf i) (0, 0)
    (x.entry i - mean) / spread

/-- Normalized entries stretched by factors and shifted, channel by channel. -/
def stretched (x gamma beta : Tensor α) : Outcome (Tensor α) := do
  let y ← Tensor.zipWith (· * ·) x gamma
  Tensor.zipWith (· + ·) y beta

/-- The result of a layer that normalizes the channels of a batch. -/
def forwardBatch (layer : Layer α) (inputs : List (Signal α)) : Outcome (Tensor α) := do
  let x := (← firstOf inputs).toReal
  if x.dims.isEmpty then mishap .badIndex
  else
    let epsilon ← layer.params.real "epsilon"
    let gamma ← layer.weight "gamma"
    let beta ← layer.weight "beta"
    stretched (normalized (Grouping.ofBatch x.dims) epsilon x) gamma beta

/-- The result of a layer that normalizes rows, which must be as wide as its factors. -/
def forwardRows (layer : Layer α) (inputs : List (Signal α)) : Outcome (Tensor α) := do
  let x := (← firstOf inputs).toReal
  let gamma ← layer.weight "gamma"
  let beta ← layer.weight "beta"
  let epsilon ← layer.params.real "epsilon"
  if x.dims.getLast? = some gamma.size then
    stretched (normalized (Grouping.ofRows x.dims) epsilon x) gamma beta
  else mishap .badTensor

/-- The slopes before normalization, from the slopes `g` after it. -/
def groupSlopes (groups : Grouping) (epsilon : α) (x g : Tensor α) : Tensor α :=
  let stats := groups.moments epsilon x
  let y := normalized groups epsilon x
  let means := Array.ofFn fun c : Fin groups.count =>
    (Scalar.mean groups.size fun k => g.entry (groups.member c k),
      Scalar.mean groups.size fun k =>
        g.entry (groups.member c k) * y.entry (groups.member c k))
  Tensor.ofFn x.dims fun i =>
    let (_, spread) := stats.getD (groups.groupOf i) (0, 0)
    let (level, tilt) := means.getD (groups.groupOf i) (0, 0)
    (g.entry i - level - y.entry i * tilt) / spread

/-- The slopes at input and weights, from the slopes `g` at the result. -/
def slopes (grouping : List Nat → Grouping) (layer : Layer α) (x g : Tensor α) : Slopes α :=
  let epsilon : α := match layer.params.real "epsilon" with
    | .ok epsilon => epsilon
    | .error _ => 0
  let groups := grouping x.dims
  let y := normalized groups epsilon x
  let gamma := (layer.weight? "gamma").getD (Tensor.filled [0] 0)
  let product := fun a b : Tensor α => match Tensor.zipWith (· * ·) a b with
    | .ok t => t
    | .error _ => a
  { inputs := [groupSlopes groups epsilon x ((product g gamma).reduced x.dims)]
    weights := layer.weights.map fun w =>
      if w.name = "gamma" then (product g y).reduced w.tensor.dims
      else g.reduced w.tensor.dims }

end BlockNet.Normalization
