import BlockNet.Layer.Attention
import BlockNet.Layer.Dense
import BlockNet.Layer.Dropout
import BlockNet.Layer.Joining
import BlockNet.Layer.Normalization
import BlockNet.Layer.Pooling
import BlockNet.Layer.Recurrent
/-! # Kernels

A kernel is what a kind of layer does: the shape it makes of the shapes that enter, the weights it
starts with, its result, and the slopes it passes back. Kernels keep no state; everything they
need stands in the layer. -/

namespace BlockNet

/-- The kinds of layers that can run. -/
inductive Kernel where
  | dense
  | convolution
  | pooling
  | flatten
  | dropout
  | activation
  | batchNorm
  | layerNorm
  | addition
  | concatenation
  | recurrent
  | attention
  deriving DecidableEq, Repr

namespace Kernel

/-- The name of the kind of layer. -/
def kind : Kernel → String
  | .dense => Dense.kind
  | .convolution => Convolution.kind
  | .pooling => Pooling.kind
  | .flatten => "Flatten"
  | .dropout => "Dropout"
  | .activation => "Activation"
  | .batchNorm => "BatchNorm"
  | .layerNorm => "LayerNorm"
  | .addition => Addition.kind
  | .concatenation => Concatenation.kind
  | .recurrent => Recurrent.kind
  | .attention => Attention.kind

/-- All kernels. -/
def all : List Kernel :=
  [.dense, .convolution, .pooling, .flatten, .dropout, .activation, .batchNorm, .layerNorm,
    .addition, .concatenation, .recurrent, .attention]

/-- The kernel of a kind of layer. -/
def ofKind? (kind : String) : Option Kernel := all.find? (·.kind == kind)

/-- The least number of inputs. -/
def minInputs (_ : Kernel) : Nat := 1

/-- The greatest number of inputs, if there is one. -/
def maxInputs? : Kernel → Option Nat
  | .addition | .concatenation => none
  | .attention => some 3
  | _ => some 1

/-- The shape of a sample in one row, of the element type that enters. -/
def flatShape (inputs : List TensorShape) : Outcome TensorShape := do
  let first ← firstOf inputs
  let sizes ← first.fixedSizes "Flatten" first.sampleDims "sample axes"
  .ok (TensorShape.batched [.size (volume sizes)] first.dtype)

/-- The shape that the kernel makes of the shapes that enter. -/
def outputShape (k : Kernel) (params : Entries) (inputs : List TensorShape) :
    Outcome TensorShape :=
  match k with
  | .dense => Dense.outputShape params inputs
  | .convolution => Convolution.outputShape params inputs
  | .pooling => Pooling.outputShape params inputs
  | .flatten => flatShape inputs
  | .dropout | .activation => firstOf inputs
  | .batchNorm | .layerNorm => Normalization.outputShape inputs
  | .addition => Addition.outputShape inputs
  | .concatenation => Concatenation.outputShape params inputs
  | .recurrent => Recurrent.outputShape params inputs
  | .attention => Attention.outputShape params inputs

variable {α : Type} [Scalar α]

/-- The weights that a layer starts with. -/
def build (k : Kernel) (params : Entries) (inputs : List TensorShape) :
    Draws (List (Weight α)) := do
  match k with
  | .dense => Dense.build params inputs
  | .convolution => Convolution.build params inputs
  | .batchNorm | .layerNorm =>
      let weights ← (Normalization.build k.kind inputs : Outcome (List (Weight α)))
      return weights
  | .recurrent => Recurrent.build params inputs
  | .attention => Attention.build params inputs
  | _ => return []

/-- The result of a layer that draws nothing. -/
def quietForward (k : Kernel) (layer : Layer α) (inputs : List (Signal α)) :
    Outcome (Tensor α) :=
  match k with
  | .dense => Dense.forward layer inputs
  | .convolution => Convolution.forward layer inputs
  | .pooling => Pooling.forward layer inputs
  | .batchNorm => Normalization.forwardBatch layer inputs
  | .layerNorm => Normalization.forwardRows layer inputs
  | .addition => Addition.forward inputs
  | .concatenation => Concatenation.forward layer inputs
  | .recurrent => Recurrent.forward layer inputs
  | _ => do Activation.applyNamed layer.params (← firstOf inputs).toReal

/-- The result of a layer. -/
def forward (k : Kernel) (layer : Layer α) (inputs : List (Signal α)) (mode : PassMode) :
    Draws (Signal α) := do
  match k with
  | .flatten => (do (← firstOf inputs).flattened : Outcome (Signal α))
  | .dropout => Dropout.forward layer inputs mode.training
  | .attention => return .real (← Attention.forward layer inputs mode)
  | _ =>
      let y ← k.quietForward layer inputs
      return .real y

/-- A batch of rows viewed as images or sequences: the axes of a sample behind the batch. -/
def viewed (x : Tensor α) (sample : List Nat) : Tensor α :=
  (x.reshape? (x.dims.headD 0 :: sample)).getD x

/-- The input of a layer as its kernel looks at it. -/
def view (k : Kernel) (layer : Layer α) (x : Tensor α) : Tensor α :=
  match firstOf layer.inputShapes with
  | .error _ => x
  | .ok shape =>
      match k with
      | .convolution | .pooling =>
          match shape.imageSize k.kind with
          | .ok image => viewed x [image.height, image.width, image.channels]
          | .error _ => x
      | .recurrent =>
          match shape.sequenceSize k.kind with
          | .ok sequence => viewed x [sequence.steps, sequence.features]
          | .error _ => x
      | _ => x

/-- The slopes of a layer in the axes of the views that its kernel takes. -/
def viewedSlopes (k : Kernel) (layer : Layer α) (inputs : List (Tensor α)) (mode : PassMode)
    (start : Generator) (y g : Tensor α) : Slopes α :=
  let first := k.view layer (inputs.headD y)
  match k with
  | .dense => Dense.slopes layer first y g
  | .convolution => Convolution.slopes layer first y g
  | .pooling => Pooling.slopes layer first g
  | .flatten => { inputs := [g], weights := [] }
  | .dropout => Dropout.slopes layer mode.training start g
  | .activation => { inputs := [(Activation.named layer.params).slopes y g], weights := [] }
  | .batchNorm => Normalization.slopes Normalization.Grouping.ofBatch layer first g
  | .layerNorm => Normalization.slopes Normalization.Grouping.ofRows layer first g
  | .addition => Addition.slopes inputs g
  | .concatenation => Concatenation.slopes layer inputs g
  | .recurrent => Recurrent.slopes layer first g
  | .attention =>
      match Attention.slopes layer inputs mode start g with
      | .ok slopes => slopes
      | .error _ => { inputs := inputs, weights := [] }

/-- The slopes at the inputs and weights of a layer, from its inputs, its result `y`, the slopes
`g` at the result, and the stream before the layer drew from it. -/
def slopes (k : Kernel) (layer : Layer α) (inputs : List (Tensor α)) (mode : PassMode)
    (start : Generator) (y g : Tensor α) : Slopes α :=
  let s := k.viewedSlopes layer inputs mode start y g
  let back := fun slope x : Tensor α => (slope.reshape? x.dims).getD slope
  { s with inputs := s.inputs.zipWith back inputs }

end Kernel

end BlockNet
