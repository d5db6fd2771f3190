import BlockNet.Graph.Validation
import BlockNet.Model.Compilation
import BlockNet.Model.Complexity
import BlockNet.Training.Trainer
/-! # Sessions

A session is what an editor works with: a model, a dataset, and at most one registered training
run. Models and runs are numbered in the order in which they came up, so that a run goes on with
its model when the session has turned to another. -/

namespace BlockNet

/-- A training run and the number of the model it trains. -/
structure SessionRun (α : Type) where
  trainer : Trainer α
  model : Nat

/-- The run that is registered, and the caller that it belongs to. -/
structure Registration where
  run : Nat
  caller : Nat
  deriving DecidableEq, Repr

/-- What a session holds. -/
structure Session (α : Type) where
  catalog : Catalog
  seed : Value
  initialized : Bool
  models : List (Model α)
  current : Option Nat
  dataset : Option DatasetSpec
  runs : List (SessionRun α)
  registered : Option Registration
  log : List LogEntry

namespace Session

variable {α : Type}

/-- A session that nothing has happened in. -/
def fresh (catalog : Catalog) (seed : Value) : Session α :=
  ⟨catalog, seed, false, [], none, none, [], none, []⟩

/-- The session with more noted. -/
def note (s : Session α) (entries : List LogEntry) : Session α :=
  { s with log := s.log ++ entries }

/-- The model in use. -/
def model? (s : Session α) : Option (Model α) := s.current.bind fun j => s.models[j]?

/-- The trainer of a run. -/
def trainer? (s : Session α) (run : Nat) : Option (Trainer α) :=
  (s.runs[run]?).map (·.trainer)

/-- Changes the trainer of a run. -/
def modifyTrainer (s : Session α) (run : Nat) (f : Trainer α → Trainer α) : Session α :=
  { s with runs := s.runs.modify run fun r => { r with trainer := f r.trainer } }

/-- Is the registered run under way? -/
def isTraining (s : Session α) : Bool :=
  match s.registered.bind fun r => s.trainer? r.run with
  | some t => t.running
  | none => false

/-- Makes the session ready for models and runs. -/
def prepare (s : Session α) : Session α × Bool :=
  if s.initialized then (s, true)
  else ({ s with initialized := true }.note [.info "Runtime initialized"], true)

/-- The session must be initialized. -/
def requireInitialized (s : Session α) : Outcome Unit :=
  if s.initialized then .ok () else .error .sessionClosed

/-- The note on a request to stop. -/
def stopNote : LogEntry := .info "Training stop requested"

/-- Asks the registered run to stop, if there is one. -/
def stopTraining (s : Session α) : Session α × Bool :=
  match s.registered with
  | none => (s, false)
  | some r => ((s.modifyTrainer r.run fun t => t.stop).note [stopNote], true)

/-- Gives up model and dataset, and asks the registered run to stop. -/
def dispose (s : Session α) : Session α :=
  { s.stopTraining.1 with current := none, dataset := none, initialized := false }.note
    [.info "Runtime disposed"]

/-- Turns to a model just compiled. -/
def adopt (s : Session α) (m : Model α) : Session α :=
  { s with models := s.models ++ [m], current := some s.models.length }

/-- Compiles a graph, which may turn out to be none, into the model in use; the registered run is
asked to stop first. A failure leaves the model in use. -/
def build [Scalar α] (s : Session α) (graph : Outcome Graph) (input : Option InputSpec) :
    Session α × Outcome (Model α) :=
  match s.requireInitialized with
  | .error fault => (s, .error fault)
  | .ok _ =>
      let s := s.stopTraining.1
      match graph with
      | .error fault => (s, .error fault)
      | .ok g =>
          match compile s.catalog s.seed g input with
          | (.error fault, log) => (s.note log, .error fault)
          | (.ok m, log) => ((s.note log).adopt m, .ok m)

/-- Turns to the dataset that a value names. -/
def loadDataset (s : Session α) (name : Value) : Session α × DatasetSpec :=
  let (spec, log) := DatasetSpec.find name
  ({ s with dataset := some spec }.note
    (log ++ [LogEntry.info ("Loaded dataset " ++ spec.name.plain)]), spec)

/-- The summary of the model in use. -/
def summary (s : Session α) : Outcome String :=
  match s.model? with
  | some m => m.summary
  | none => .ok "No model available"

/-- What the session tells about what it computes with: the names of the facts, the engine and the
device. -/
def backend : List String × String × String :=
  (["backend", "device", "threads", "version"], "torch", "cpu")

end Session

end BlockNet
