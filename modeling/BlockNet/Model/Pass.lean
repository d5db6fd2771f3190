import BlockNet.Model.Basic
import BlockNet.Value.Reading
/-! # Passes through a model

A pass runs the layers in order. A layer is fed from the layers before it or from the given
inputs: a single tensor feeds the input of the model and every outside feed from a first port,
while named tensors feed what they are named for. One sample without a batch axis gets one for
the pass.

A pass tells its listeners when it starts, what each layer gives, and when it ends. Listeners also
accept events from elsewhere, which come as entries by name. -/

namespace BlockNet

/-- What a listener hears. -/
inductive Event where
  | passStart (training : Bool)
  | layerOutput (node kind : String) (dims : List Int) (elementType : Value)
  | passEnd (layers : Nat)

/-- The event that entries spell out; entries of no known event are none. -/
def Event.ofEntries (entries : Entries) : Outcome (Option Event) :=
  match entries.getNull "event" with
  | .text "forward_start" => .ok (some (.passStart (entries.getNull "training").truthy))
  | .text "layer_output" => do
      let node ← entries.require "node"
      let kind ← entries.require "kind"
      let dims ← ((entries.get? "shape").getD (.tuple [])).toList
      let dims ← dims.mapM Value.toInt
      .ok (some (.layerOutput node.plain kind.plain dims (entries.getNull "dtype")))
  | _ => .ok none

/-- What a pass is given. -/
inductive Inputs (α : Type) where
  | single (x : Signal α)
  | named (xs : List (String × Signal α))

namespace Pass

variable {α : Type}

/-- Is a signal one sample without a batch axis? It is if it has the axes of a sample, or their
entries in a row. -/
def isUnbatched (m : Model α) (x : Signal α) : Bool :=
  let sample := m.inputShape.sampleDims
  (!sample.isEmpty && decide (TensorShape.sizes? sample = some x.dims))
    || (x.dims.length == 1 && m.inputShape.sampleSize? == some x.size)

/-- The signal in the axes of a shape, the batch axis kept. A shape with open axes asks for
nothing. -/
def conform (x : Signal α) (shape : TensorShape) : Outcome (Signal α) :=
  match TensorShape.sizes? shape.sampleDims with
  | none => .ok x
  | some sizes => do
      let batch ← x.batch
      x.reshape (batch :: sizes)

/-- The shape that is expected under a key. -/
def expected? (m : Model α) (key : String) : Option TensorShape :=
  if key = modelInput then some m.inputShape
  else (m.externalInputs.find? (·.1 == key)).map (·.2)

/-- The signal given under a key, before it is brought into the expected axes. -/
def given (m : Model α) (inputs : Inputs α) (key : String) : Outcome (Signal α) :=
  let secondary := m.portInputs.contains key
  match inputs with
  | .single x => if secondary then .error (.missingInput key true) else .ok x
  | .named xs =>
      match xs.find? (·.1 == key), xs.find? (·.1 == modelInput) with
      | some (_, x), _ => .ok x
      | none, some (_, x) => if secondary then .error (.missingInput key true) else .ok x
      | none, none => .error (.missingInput key secondary)

/-- The signal that feeds what reads a key from outside. -/
def feed (m : Model α) (inputs : Inputs α) (key : String) : Outcome (Signal α) := do
  let x ← given m inputs key
  match expected? m key with
  | none => .ok x
  | some shape => conform x shape

/-- What a layer was given and what it gave, with the stream before it drew from it. -/
structure Visit (α : Type) where
  layer : Layer α
  inputs : List (Signal α)
  output : Signal α
  start : Generator

/-- The output of the last visit to a layer. -/
def outputOf? (visits : List (Visit α)) (key : String) : Option (Signal α) :=
  (visits.reverse.find? (·.layer.id == key)).map (·.output)

/-- The inputs of a layer after some visits. -/
def argumentsOf (m : Model α) (inputs : Inputs α) (visits : List (Visit α)) (layer : Layer α) :
    Outcome (List (Signal α)) :=
  layer.feeds.mapM fun key =>
    match outputOf? visits key with
    | some x => .ok x
    | none => feed m inputs key

variable [Scalar α]

/-- Runs one layer. -/
def visit (m : Model α) (inputs : Inputs α) (mode : PassMode) (visits : List (Visit α))
    (layer : Layer α) : Draws (Visit α) := do
  match Kernel.ofKind? layer.kind with
  | none => throw (.noKernel layer.kind)
  | some k =>
      let args ← (argumentsOf m inputs visits layer : Outcome (List (Signal α)))
      let start ← get
      let output ← k.forward layer args mode
      return ⟨layer, args, output, start⟩

/-- Runs layers one after the other, each after the visits before it: the visits up to a fault,
the fault if there is one, and the stream afterwards. -/
def visitAll (m : Model α) (inputs : Inputs α) (mode : PassMode) :
    List (Layer α) → List (Visit α) → Generator → List (Visit α) × Option Fault × Generator
  | [], visits, g => (visits, none, g)
  | layer :: rest, visits, g =>
      match (visit m inputs mode visits layer).run g with
      | (.error fault, g) => (visits, some fault, g)
      | (.ok v, g) => visitAll m inputs mode rest (visits ++ [v]) g

end Pass

/-- What came of a pass. -/
structure Pass (α : Type) where
  mode : PassMode
  unbatched : Bool
  visits : List (Pass.Visit α)
  fault? : Option Fault
  generator : Generator

namespace Pass

variable {α : Type}

/-- The ids of the layers that gave something, each once. -/
def ids (visits : List (Visit α)) : List String := (visits.map (·.layer.id)).eraseDups

/-- The signal as the caller sees it: without the batch axis that the pass added. -/
def seen (p : Pass α) (x : Signal α) : Signal α := if p.unbatched then x.squeezed else x

/-- The outputs of all layers. -/
def outputs (p : Pass α) : Outcome (List (String × Signal α)) :=
  match p.fault? with
  | some fault => .error fault
  | none =>
      .ok ((ids p.visits).filterMap fun id => (outputOf? p.visits id).map fun x => (id, p.seen x))

/-- The output of the model. -/
def output (p : Pass α) (m : Model α) : Outcome (Signal α) :=
  match p.fault? with
  | some fault => .error fault
  | none => do
      let last ← m.outputLayer
      let x ← orMishap .absentKey (outputOf? p.visits last.id)
      .ok (p.seen x)

/-- What listeners hear of one layer. -/
def eventOf (v : Visit α) : Event :=
  .layerOutput v.layer.id v.layer.kind (v.output.dims.map fun n : Nat => (n : Int))
    (.text v.output.typeName)

/-- What listeners hear of the pass; its end only if it has come to it. -/
def events (p : Pass α) : List Event :=
  .passStart p.mode.training :: p.visits.map eventOf
    ++ match p.fault? with
      | some _ => []
      | none => [.passEnd (ids p.visits).length]

end Pass

/-- Runs a model. -/
def Model.run {α : Type} [Scalar α] (m : Model α) (inputs : Inputs α) (mode : PassMode)
    (g : Generator) : Pass α :=
  let unbatched := match inputs with
    | .single x => Pass.isUnbatched m x
    | .named _ => false
  let inputs := match inputs with
    | .single x => .single (if unbatched then x.unsqueezed else x)
    | named => named
  let (visits, fault?, generator) := Pass.visitAll m inputs mode m.layers [] g
  { mode, unbatched, visits, fault?, generator }

end BlockNet
