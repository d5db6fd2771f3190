import BlockNet.Catalog.Stock
import BlockNet.Dataset.Spec
import BlockNet.Graph.Snapshot
import BlockNet.Model.Basic
import BlockNet.Schedule
/-! # Compilation

A graph becomes a model layer by layer, in the order of its schedule. Each layer is fed from the
layers before it, from sources outside the model, or, if nothing feeds it, from the input of the
model. What cannot become a layer is skipped and noted; everything else that goes wrong stops the
compilation. -/

namespace BlockNet

/-- The input that a model is compiled for: a shape, or a value that lists the sizes of a sample. -/
inductive InputSpec where
  | shape (s : TensorShape)
  | sizes (v : Value)

/-- The input with a batch axis in front. -/
def InputSpec.toBatched : InputSpec → Outcome TensorShape
  | .shape s =>
      .ok (if s.dims.head? = some Dim.batch then s else { s with dims := Dim.batch :: s.dims })
  | .sizes v => do
      let sizes ← (← v.toList).mapM Value.toInt
      TensorShape.ofSample sizes

/-- The input that a value spells out: a shape by entries that give dimensions, or else the sizes of
a sample, which are read when they are needed. Null spells out none. -/
def InputSpec.ofValue (v : Value) : Outcome (Option InputSpec) :=
  match v with
  | .null => .ok none
  | .dict entries =>
      if Entries.has entries "dimensions" then (TensorShape.ofTemplate v).map fun s => some (.shape s)
      else .ok (some (.sizes v))
  | v => .ok (some (.sizes v))

/-- The input of a model that names neither a shape nor a dataset. -/
def defaultInput : TensorShape := TensorShape.batched [.size 784] .float32

/-- The key under which the output of a source outside the model is fed: the id of the source for
its first port, else id and port. -/
def feedKey (d : BlockDefinition) (source : Node) (port : Value) : String :=
  if d.outputs.head?.any (·.name.sameKey port) then source.id
  else source.id ++ "." ++ port.plain

/-- The key under which the output of a source is fed; its type must be in the catalog. -/
def externalKey (catalog : Catalog) (source : Node) (port : Value) : Outcome String := do
  .ok (feedKey (← orMishap .absentKey (catalog.get? source.blockType)) source port)

namespace Compilation

/-- What a compilation has come to. -/
structure Progress (α : Type) where
  layers : List (Layer α)
  external : List (String × TensorShape)
  portInputs : List String
  labelInputs : List String
  warnings : List String
  skipped : List String
  generator : Generator
  log : List LogEntry

/-- Why a compilation stopped, with what it had noted. -/
structure Stopped where
  fault : Fault
  log : List LogEntry

/-- What stays the same during a compilation: the catalog, the nodes of known types, the
connections and the input of the model. -/
structure Plan where
  catalog : Catalog
  known : List Node
  connections : List Connection
  input : TensorShape

/-- A step of a compilation that may stop it. -/
abbrev Step (β : Type) := Except Stopped β

/-- Stops with a fault. -/
def stop {β : Type} (log : List LogEntry) (fault : Fault) : Step β := .error ⟨fault, log⟩

/-- The result of an operation that stops the compilation if it fails. -/
def orStop {β : Type} (log : List LogEntry) (r : Outcome β) : Step β :=
  r.mapError fun fault => ⟨fault, log⟩

/-- Adds a node to a list: in the place of the one with its id, else at the end. -/
def putNode (nodes : List Node) (n : Node) : List Node :=
  match nodes with
  | [] => [n]
  | m :: rest => if m.id == n.id then n :: rest else m :: putNode rest n

/-- The nodes of known types, each id once. -/
def knownNodes (catalog : Catalog) (nodes : List Node) : List Node :=
  (nodes.filter fun n => catalog.contains n.blockType).foldl putNode []

/-- The nodes of unknown types. -/
def unknownNodes (catalog : Catalog) (nodes : List Node) : List Node :=
  nodes.filter fun n => !catalog.contains n.blockType

/-- The known nodes that become layers. -/
def layerNodes (catalog : Catalog) (known : List Node) : List Node :=
  known.filter fun n => catalog.isComputational n.blockType

/-- The name of the dataset of the first data source, if there is one. -/
def firstDataset (catalog : Catalog) (known : List Node) : Outcome (Option String) :=
  match known.find? (·.blockType == "DataLoader") with
  | none => .ok none
  | some n => do
      let params ← n.effectiveParams catalog
      .ok (some (← params.require "dataset").plain)

/-- The input of the model: the given one, that of the dataset, or the default. -/
def modelInputShape (input : Option InputSpec) (dataset : Option String) :
    Outcome TensorShape × List LogEntry :=
  match input, dataset with
  | some spec, _ => (spec.toBatched, [])
  | none, some name =>
      let (spec, log) := DatasetSpec.find (.text name)
      (spec.inputShape, log)
  | none, none => (.ok defaultInput, [])

/-- The order of the layers. -/
def scheduleOf (nodes : List Node) (connections : List Connection) : Schedule String :=
  Schedule.ofGraph (nodes.map (·.id)) (connections.map fun c => (c.source, c.target))
    ((nodes.filter (·.isSource)).map (·.id))

namespace Plan

/-- The known node of an id. -/
def node? (plan : Plan) (id : String) : Option Node := plan.known.find? (·.id == id)

/-- The connections from known nodes into a node, by the place of their target port. -/
def incoming (plan : Plan) (d : BlockDefinition) (n : Node) : List Connection :=
  (plan.connections.filter fun c => c.target == n.id && (plan.node? c.source).isSome).mergeSort
    fun a b => d.inputIndex a.targetPort ≤ d.inputIndex b.targetPort

/-- The shape that a source outside the model gives on a port, none if it has no such port. A data
source gives the shapes of its dataset. -/
def externalShape (plan : Plan) (source : Node) (port : Value) :
    Outcome (Option TensorShape) × List LogEntry :=
  match (plan.catalog.get? source.blockType).bind (·.outputPort? port) with
  | none => (.ok none, [])
  | some output =>
      if source.blockType != "DataLoader" then (.ok (some output.shape), [])
      else
        match source.effectiveParams plan.catalog >>= fun params => params.require "dataset" with
        | .error fault => (.error fault, [])
        | .ok name =>
            let (spec, log) := DatasetSpec.find name
            (if port.sameKey "data" then spec.inputShape.map some
              else .ok (some DatasetSpec.labelShape), log)

end Plan

/-- A feed: its key and the shape that comes with it. -/
abbrev Feed := String × TensorShape

/-- Stores a shape under a key: in place if the key is there, else at the end. -/
def putFeed (feeds : List Feed) (key : String) (shape : TensorShape) : List Feed :=
  match feeds with
  | [] => [(key, shape)]
  | f :: rest => if f.1 == key then (key, shape) :: rest else f :: putFeed rest key shape

/-- Adds a text to a list that does not hold it. -/
def putOnce (texts : List String) (text : String) : List String :=
  if texts.contains text then texts else texts ++ [text]

variable {α : Type}

namespace Progress

/-- Nothing compiled yet. -/
def start (generator : Generator) (log : List LogEntry) (warnings skipped : List String) :
    Progress α :=
  { layers := []
    external := []
    portInputs := []
    labelInputs := []
    warnings
    skipped
    generator
    log }

/-- The layer that a node has become. -/
def layer? (p : Progress α) (id : String) : Option (Layer α) := p.layers.find? (·.id == id)

/-- Notes that a node is skipped. -/
def skip (p : Progress α) (n : Node) (warning : String) (entry : LogEntry) : Progress α :=
  { p with
    warnings := p.warnings ++ [warning]
    skipped := p.skipped ++ [n.id]
    log := p.log ++ [entry] }

/-- Notes an outside feed. -/
def addExternal (p : Progress α) (source : Node) (port : Value) (key : String)
    (shape : TensorShape) : Progress α :=
  let secondary := key != source.id
  let labels := secondary && source.blockType == "DataLoader" && port.sameKey "labels"
  { p with
    external := putFeed p.external key shape
    portInputs := if secondary then putOnce p.portInputs key else p.portInputs
    labelInputs := if labels then putOnce p.labelInputs key else p.labelInputs }

end Progress

/-- Adds the feed of one connection. A source that has not become a layer although its type does
feeds nothing. -/
def addFeed (plan : Plan) (acc : Progress α × List Feed) (c : Connection) :
    Step (Progress α × List Feed) :=
  let (p, feeds) := acc
  match plan.node? c.source with
  | none => .ok (p, feeds)
  | some source =>
      match p.layer? source.id with
      | some l => .ok (p, feeds ++ [(source.id, l.outputShape)])
      | none =>
          if plan.catalog.isComputational source.blockType then .ok (p, feeds)
          else
            let (shape, log) := plan.externalShape source c.sourcePort
            let p := { p with log := p.log ++ log }
            match shape, plan.catalog.get? source.blockType with
            | .error fault, _ => stop p.log fault
            | .ok (some shape), some d =>
                let key := feedKey d source c.sourcePort
                .ok (p.addExternal source c.sourcePort key shape, feeds ++ [(key, shape)])
            | .ok _, _ => .ok (p, feeds)

/-- The feeds of a node in the order of its ports, at least the input of the model. -/
def feedsOf (plan : Plan) (p : Progress α) (d : BlockDefinition) (n : Node) :
    Step (Progress α × List Feed) := do
  let (p, feeds) ← (plan.incoming d n).foldlM (addFeed plan) (p, [])
  .ok (p, if feeds.isEmpty then [(modelInput, plan.input)] else feeds)

/-- The feeds that a kernel takes; those beyond its number of inputs are dropped and noted. -/
def limitFeeds (k : Kernel) (p : Progress α) (n : Node) (feeds : List Feed) :
    Progress α × List Feed :=
  match k.maxInputs? with
  | none => (p, feeds)
  | some limit =>
      if feeds.length ≤ limit then (p, feeds)
      else
        let warning := n.labelText ++ s!": ignoring {feeds.length - limit} extra input(s)"
        ({ p with warnings := p.warnings ++ [warning] }, feeds.take limit)

/-- The shape and the weights of a layer. -/
def construct [Scalar α] (k : Kernel) (params : Entries) (shapes : List TensorShape) :
    Draws (TensorShape × List (Weight α)) := do
  let shape ← k.outputShape params shapes
  let weights ← k.build params shapes
  return (shape, weights)

/-- Notes a sum of unlike shapes. -/
def noteMismatch (p : Progress α) (n : Node) (shapes : List TensorShape) : Progress α :=
  if n.blockType == Addition.kind && 1 < (shapes.map (·.sampleDims)).eraseDups.length then
    let text := n.labelText ++ ": adding mismatched shapes "
      ++ " + ".intercalate (shapes.map (·.describe))
    { p with warnings := p.warnings ++ [text], log := p.log ++ [.warning text] }
  else p

/-- Makes a layer of a node with given settings and feeds, or skips it if its shapes cannot be
resolved. -/
def addLayer [Scalar α] (k : Kernel) (p : Progress α) (n : Node) (params : Entries)
    (feeds : List Feed) : Step (Progress α) :=
  let shapes := feeds.map (·.2)
  let (made, generator) := (construct k params shapes).run p.generator
  let p := { p with generator }
  match made with
  | .error (.unresolvedShape kind reason) =>
      let text := n.labelText ++ ": " ++ kind ++ ": " ++ reason
      .ok (p.skip n text (.warning ("Skipping " ++ text)))
  | .error fault => stop p.log fault
  | .ok (outputShape, weights) =>
      let p := noteMismatch p n shapes
      let layer : Layer α :=
        { id := n.id
          label := n.displayLabel
          kind := n.blockType
          params
          inputShapes := shapes
          outputShape
          feeds := feeds.map (·.1)
          weights }
      .ok { p with layers := p.layers ++ [layer] }

/-- Compiles one node. -/
def place [Scalar α] (plan : Plan) (p : Progress α) (id : String) : Step (Progress α) :=
  match plan.node? id with
  | none => .ok p
  | some n =>
      match Kernel.ofKind? n.blockType, plan.catalog.get? n.blockType with
      | some k, some d => do
          let (p, feeds) ← feedsOf plan p d n
          let (p, feeds) := limitFeeds k p n feeds
          let params ← orStop p.log (d.effectiveParams n.params)
          addLayer k p n params feeds
      | _, _ =>
          .ok (p.skip n (n.labelText ++ ": " ++ n.blockType ++ " cannot be executed")
            (.warning ("No kernel for " ++ n.labelText ++ " (" ++ n.blockType ++ "); skipping")))

/-- The note on a finished model. -/
def finished (m : Model α) : LogEntry :=
  .info (s!"Compiled {m.layers.length} layers ({m.bearers.length} weight-bearing, "
    ++ Decimal.grouped m.weightCount ++ " parameters)")

/-- The note on the edges that close cycles. -/
def cycleNote (s : Schedule String) : LogEntry :=
  let edges := s.backEdges.map fun e => Value.tuple [.text e.1, .text e.2]
  .warning ("Cycle detected in graph; compiling with best-effort order (back edges: "
    ++ (Value.list edges).shown ++ ")")

/-- Compiles a graph; gives the model and what was noted. -/
def run [Scalar α] (catalog : Catalog) (seed : Value) (g : Graph) (input : Option InputSpec) :
    Step (Model α × List LogEntry) := do
  let unknown := unknownNodes catalog g.nodes
  let known := knownNodes catalog g.nodes
  let log := unknown.map fun n =>
    LogEntry.warning s!"Skipping node {n.id} with unknown block type {n.blockType}"
  let nodes := layerNodes catalog known
  if nodes.isEmpty then stop log .noValidLayers
  else
    let dataset ← orStop log (firstDataset catalog known)
    let (shape, notes) := modelInputShape input dataset
    let log := log ++ notes
    let shape ← orStop log shape
    let schedule := scheduleOf nodes g.connections
    let cyclic := schedule.cycleDetected
    let log := if cyclic then log ++ [cycleNote schedule] else log
    let warnings := (unknown.map fun n => n.labelText ++ ": Unknown block type: " ++ n.blockType)
      ++ if cyclic then ["Cycle detected: layer order is best-effort"] else []
    let plan : Plan := ⟨catalog, known, g.connections, shape⟩
    let seed ← orStop log seed.toInt
    let p ← schedule.order.foldlM (place plan)
      (Progress.start (.seeded seed) log warnings (unknown.map (·.id)))
    if p.layers.isEmpty then stop p.log .noValidLayers
    else
      let m : Model α :=
        { layers := p.layers
          inputShape := shape
          externalInputs := p.external
          portInputs := p.portInputs
          labelInputs := p.labelInputs
          connectionCount := g.connections.length
          warnings := p.warnings
          cycleDetected := cyclic
          skippedNodes := p.skipped
          dataset }
      .ok (m, p.log ++ [finished m])

end Compilation

/-- Compiles a graph: the model or the fault, and what was noted on the way. -/
def compile {α : Type} [Scalar α] (catalog : Catalog) (seed : Value) (g : Graph)
    (input : Option InputSpec) : Outcome (Model α) × List LogEntry :=
  match Compilation.run catalog seed g input with
  | .ok (m, log) => (.ok m, log)
  | .error s => (.error s.fault, s.log)

end BlockNet
