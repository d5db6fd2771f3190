import BlockNet.Layer.Kernel
/-! # Models

A model lists its layers in an order in which each comes after the layers that feed it. -/

namespace BlockNet

/-- The id under which the input of a model is fed. -/
def modelInput : String := "__input__"

/-- Layers in the order they run, what they expect to be fed from outside, and what was noted
while they were compiled. `portInputs` are the outside feeds that stem from another than the first
port of their source, and `labelInputs` those of them that carry labels. -/
structure Model (α : Type) where
  layers : List (Layer α)
  inputShape : TensorShape
  externalInputs : List (String × TensorShape)
  portInputs : List String
  labelInputs : List String
  connectionCount : Nat
  warnings : List String
  cycleDetected : Bool
  skippedNodes : List String
  dataset : Option String

namespace Model

variable {α : Type}

/-- The last layer, whose result is the result of the model. -/
def outputLayer (m : Model α) : Outcome (Layer α) := orMishap .badIndex m.layers.getLast?

/-- The number of single weights. -/
def weightCount (m : Model α) : Nat := combined (m.layers.map Layer.weightCount)

/-- The layers that have weights. -/
def bearers (m : Model α) : List (Layer α) := m.layers.filter Layer.bearsWeights

/-- The layer of a node; of two with one id, the later. -/
def layer? (m : Model α) (id : String) : Option (Layer α) :=
  m.layers.reverse.find? (·.id == id)

/-- The layer that the node of an id must have become. What cannot be a key is no id. -/
def layer (m : Model α) (id : Value) : Outcome (Layer α) :=
  match id with
  | .text name => (m.layer? name).elim (.error (.unknownLayer id)) .ok
  | id => if id.hashable then .error (.unknownLayer id) else mishap .wrongType

/-- All weights under their names, layer by layer. -/
def weights (m : Model α) : List (String × Weight α) :=
  m.layers.flatMap fun l => l.weights.map fun w => (l.weightKey w, w)

/-- The values of all weights under their names. -/
def state (m : Model α) : List (String × Tensor α) := m.weights.map fun (key, w) => (key, w.tensor)

/-- The model with every weight changed by a function of its name and itself. -/
def mapWeights (m : Model α) (f : String → Weight α → Weight α) : Model α :=
  { m with layers := m.layers.map fun l =>
      { l with weights := l.weights.map fun w => f (l.weightKey w) w } }

/-- The model with the weights of some names frozen. -/
def freeze (m : Model α) (names : List String) : Model α :=
  m.mapWeights fun key w => if names.contains key then { w with trainable := false } else w

/-- Takes the value of a weight from a state. -/
def stateFor (state : List (String × Tensor α)) (key : String) (w : Weight α) :
    Outcome (Tensor α) :=
  match state.find? (·.1 == key) with
  | none => .error (.missingWeight key)
  | some (_, t) =>
      if t.dims = w.tensor.dims then .ok t else .error (.weightShape key w.tensor.dims t.dims)

/-- Loads weights one after the other up to the first that the state has no fitting value for:
the weights afterwards, and whether all were loaded. -/
def loadWeights (state : List (String × Tensor α)) (l : Layer α) :
    List (Weight α) → List (Weight α) × Outcome Unit
  | [] => ([], .ok ())
  | w :: rest =>
      match stateFor state (l.weightKey w) w with
      | .error fault => (w :: rest, .error fault)
      | .ok t =>
          let (ws, done) := loadWeights state l rest
          ({ w with tensor := t } :: ws, done)

/-- Loads the weights of layers up to the first fault. -/
def loadLayers (state : List (String × Tensor α)) :
    List (Layer α) → List (Layer α) × Outcome Unit
  | [] => ([], .ok ())
  | l :: rest =>
      match loadWeights state l l.weights with
      | (ws, .error fault) => ({ l with weights := ws } :: rest, .error fault)
      | (ws, .ok _) =>
          let (ls, done) := loadLayers state rest
          ({ l with weights := ws } :: ls, done)

/-- Loads the values of all weights. What stands before a fault stays loaded. -/
def load (m : Model α) (state : List (String × Tensor α)) : Model α × Outcome Unit :=
  let (layers, done) := loadLayers state m.layers
  ({ m with layers }, done)

/-- The model in a line. -/
def shown (m : Model α) : String :=
  s!"CompiledModel(layers={m.layers.length}, params={m.weightCount})"

end Model

end BlockNet
