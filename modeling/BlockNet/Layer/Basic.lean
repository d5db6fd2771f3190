import BlockNet.Layer.Axes
import BlockNet.Tensor.Signal
import BlockNet.Value.Arithmetic
/-! # Layers and their weights -/

namespace BlockNet

/-- A named array of numbers that training adjusts, unless it is frozen. -/
structure Weight (α : Type) where
  name : String
  tensor : Tensor α
  trainable : Bool

/-- A block after compilation: its settings, the shapes at its ends, the ids it is fed from in the
order of its ports, and its weights. -/
structure Layer (α : Type) where
  id : String
  label : Value
  kind : String
  params : Entries
  inputShapes : List TensorShape
  outputShape : TensorShape
  feeds : List String
  weights : List (Weight α)

namespace Layer

variable {α : Type}

/-- The number of single weights. -/
def weightCount (l : Layer α) : Nat := combined (l.weights.map fun w => w.tensor.size)

/-- Has the layer weights? -/
def bearsWeights (l : Layer α) : Bool := !l.weights.isEmpty

/-- The name of a weight among all weights of a model. -/
def weightKey (l : Layer α) (w : Weight α) : String := l.id ++ "." ++ w.name

/-- The weight of a name, if the layer has it. -/
def weight? (l : Layer α) (name : String) : Option (Tensor α) :=
  (l.weights.find? (·.name == name)).map (·.tensor)

/-- The weight that must stand under a name. -/
def weight (l : Layer α) (name : String) : Outcome (Tensor α) := orMishap .absentKey (l.weight? name)

end Layer

/-- The first of the inputs, which must be there. -/
def firstOf {β : Type} (inputs : List β) : Outcome β := orMishap .badIndex inputs.head?

/-- A truth value among settings, with a default. -/
def Entries.flag (params : Entries) (name : String) (default : Bool) : Bool :=
  ((params.get? name).map Value.truthy).getD default

/-- A real number that must stand among settings. -/
def Entries.real {α : Type} [Scalar α] (params : Entries) (name : String) : Outcome α := do
  .ok (Scalar.ofFloat (← (← params.require name).toFloat))

section Initial

variable {α : Type} [Scalar α]

/-- Half the width of the interval that the first values of a weight are drawn from, by the numbers
of its inputs and outputs. -/
def fanBound (fanIn fanOut : Number) : Outcome α := do
  let fans ← ((← fanIn.plus fanOut).larger (.whole 1)).toFloat
  .ok (Scalar.sqrt (Scalar.ofInt 6 / Scalar.ofFloat fans))

/-- The number in `[0, 1)` that stands behind the draw after `n` others. -/
def Generator.uniformAt (g : Generator) (n : Nat) : α :=
  Scalar.ofInt (g.drawAt n) / Scalar.ofInt Generator.range

/-- A tensor of draws, spread evenly over an interval around zero. -/
def fanUniform (dims : Value) (fanIn fanOut : Number) : Draws (Tensor α) := do
  let bound : α ← (fanBound fanIn fanOut : Outcome α)
  let sizes ← (do drawnSizes (← (← dims.toList).mapM Value.toInt) : Outcome (List Nat))
  let g ← get
  set (g.skip (volume sizes))
  return Tensor.ofFn sizes fun i => (g.uniformAt i * Scalar.ofInt 2 - Scalar.one) * bound

/-- A tensor that holds a written number everywhere. -/
def constantTensor (dims : List Int) (value : Value) : Outcome (Tensor α) := do
  let x ← value.toFloat
  let sizes ← axisSizes dims
  .ok (Tensor.filled sizes (Scalar.ofFloat x))

/-- A weight drawn at random. -/
def drawnWeight (name : String) (dims : List Int) (fanIn fanOut : Int) : Draws (Weight α) := do
  return ⟨name, ← fanUniform (.list (dims.map .int)) (.whole fanIn) (.whole fanOut), true⟩

/-- A weight that starts out the same everywhere. -/
def constantWeight (name : String) (dims : List Int) (value : Value) : Outcome (Weight α) := do
  .ok ⟨name, ← constantTensor dims value, true⟩

/-- The bias of a layer, if its settings ask for one. -/
def biasWeight (params : Entries) (size : Int) : Outcome (List (Weight α)) := do
  if params.flag "use_bias" true then
    let b ← constantWeight "bias" [size] ((params.get? "bias_init").getD (.real 0))
    .ok [b]
  else .ok []

end Initial

/-- How layers are run: is the model being trained, and is there a stream that belongs to the pass? -/
structure PassMode where
  training : Bool
  streamed : Bool
  deriving DecidableEq, Repr

/-- What a layer passes back from the slope of a loss at its output: the slopes at its inputs and
at its weights, each in order. -/
structure Slopes (α : Type) where
  inputs : List (Tensor α)
  weights : List (Tensor α)

end BlockNet
