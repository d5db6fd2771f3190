import BlockNet.Layer.Activation
import BlockNet.Layer.Affine
/-! # Dense layers

An affine map of the last axis, followed by an activation. -/

namespace BlockNet.Dense

/-- The name of the layer in faults. -/
def kind : String := "Dense"

/-- The last axis takes the size of the setting `units`. -/
def outputShape (params : Entries) (inputs : List TensorShape) : Outcome TensorShape := do
  let shape ← firstOf inputs
  let _ ← shape.featureSize kind
  let units ← params.integer "units"
  .ok ((← shape.withSize (-1) units).withDtype .float32)

variable {α : Type} [Scalar α]

/-- A drawn kernel, inputs by outputs, and a constant bias. -/
def build (params : Entries) (inputs : List TensorShape) : Draws (List (Weight α)) := do
  let shape ← firstOf inputs
  let features ← shape.featureSize kind
  let units ← params.integer "units"
  let kernel ← drawnWeight "kernel" [(features : Int), units] features units
  let bias ← biasWeight params units
  return kernel :: bias

/-- The affine map of the last axis, which must fit the kernel. -/
def linear (x kernel : Tensor α) (bias : Option (Tensor α)) : Outcome (Tensor α) :=
  match kernel.dims with
  | [features, units] =>
      if x.dims.getLast? = some features then
        .ok (Affine.apply x (x.dims.dropLast ++ [units]) features units
          (fun k j => kernel.entry (k * units + j))
          (fun j => (bias.map fun b => b.entry j).getD 0))
      else mishap .badTensor
  | _ => mishap .badTensor

/-- The layer's result. -/
def forward (layer : Layer α) (inputs : List (Signal α)) : Outcome (Tensor α) := do
  let x := (← firstOf inputs).toReal
  let kernel ← layer.weight "kernel"
  let out ← linear x kernel (layer.weight? "bias")
  Activation.applyNamed layer.params out

/-- The slopes at input and weights, from the result `y` and the slopes `g` at it. -/
def slopes (layer : Layer α) (x y g : Tensor α) : Slopes α :=
  let kernel := (layer.weight? "kernel").getD (Tensor.filled [0, 0] 0)
  let features := kernel.dims.getD 0 0
  let units := kernel.dims.getD 1 0
  let g := (Activation.named layer.params).slopes y g
  let rows := volume y.dims.dropLast
  { inputs := [Affine.inputSlopes g x.dims features units fun k j => kernel.entry (k * units + j)]
    weights := layer.weights.map fun w =>
      if w.name = "bias" then Affine.biasSlopes g rows units
      else Tensor.ofFn [features, units] fun i =>
        Affine.weightSlope x g rows features units (i / units) (i % units) }

end BlockNet.Dense
