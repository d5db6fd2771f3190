import BlockNet.Session.Basic
/-! # Training in a session

A run is registered before it starts and no longer when it has ended. A caller may start a run
while one of its own is registered: the older run is asked to stop and loses the registration. A
run of another caller has to end first. -/

namespace BlockNet.Session

variable {α : Type}

/-- Registers a new run for a caller and gives its number; none while a run of another caller is
registered. -/
def register (s : Session α) (caller : Nat) (t : Trainer α) (model : Nat) :
    Option (Session α × Nat) :=
  let enter := fun s : Session α =>
    ({ s with
        runs := s.runs ++ [⟨t, model⟩]
        registered := some ⟨s.runs.length, caller⟩ }, s.runs.length)
  match s.registered with
  | none => some (enter s)
  | some r =>
      if r.caller = caller then some (enter (s.modifyTrainer r.run fun t => t.stop)) else none

/-- Takes a run off the register, unless another one is registered. -/
def unregister (s : Session α) (run : Nat) : Session α :=
  match s.registered with
  | some r => if r.run = run then { s with registered := none } else s
  | none => s

/-- Asks the run of another caller to stop, once. -/
def askToStop (s : Session α) : Session α :=
  match s.registered.bind fun r => s.trainer? r.run with
  | some t => if t.stopRequested then s else s.stopTraining.1
  | none => s

/-- Names the dataset of the session in a model. -/
def nameDataset (s : Session α) (model : Nat) (d : DatasetSpec) : Session α :=
  { s with models := s.models.modify model fun m => { m with dataset := some d.name.plain } }

variable [Scalar α]

/-- Sets up a run for a caller, which may pause between epochs, and gives its number. Batches are
those of the dataset that the model names at this time. -/
def openRun (s : Session α) (caller : Nat) (config : Value) (pausing : Bool) :
    Session α × Outcome Nat :=
  match s.requireInitialized with
  | .error fault => (s, .error fault)
  | .ok _ =>
      match s.current, s.dataset with
      | some j, some d =>
          let (built, log) := Trainer.build s.models[j]? config none none none
          let s := s.note log
          match built with
          | .error fault => (s, .error fault)
          | .ok t =>
              match s.register caller { t with pausing } j with
              | none => (s.askToStop, .error .alreadyRunning)
              | some (s, run) =>
                  ((s.nameDataset j d).note
                    [.info ("Training session started on " ++ d.name.plain)], .ok run)
      | _, _ => (s, .error .nothingToTrain)

/-- Has a run been asked to stop? -/
def stopAsked (s : Session α) (run : Nat) : Bool :=
  match s.trainer? run with
  | some t => t.stopRequested
  | none => true

/-- Trains a run for an epoch: the model is taken as it stands in the session and put back there. -/
def recordEpoch (s : Session α) (run : Nat) (epoch : Nat) : Session α × Outcome (Metrics α) :=
  match s.runs[run]? with
  | none => (s, .error .nothingToTrain)
  | some r =>
      match s.models[r.model]? with
      | none => (s, .error .nothingToTrain)
      | some m =>
          let ((t, log), metrics) := (r.trainer.withModel m).recordEpoch epoch
          let s := { s with models := s.models.set r.model t.model }
          ((s.modifyTrainer run fun _ => t).note log, metrics)

/-- A session, and what who listens to its run has kept in mind. -/
abbrev Heard (α τ : Type) := Session α × τ

variable {τ : Type}

/-- Who listens to a run: told of an epoch, it may act on the session and may fail. -/
abbrev Listener (α τ : Type) := Metrics α → Heard α τ → Heard α τ × Option Fault

/-- The break of a run after an epoch. -/
def pauseAfter (s : Session α) (run : Nat) (epoch : Nat) : Option Fault :=
  (s.trainer? run).bind fun t => t.pauseAfter epoch

/-- Trains a run for an epoch, tells who listens and makes a break. -/
def tellEpoch (run : Nat) (listener : Listener α τ) (epoch : Nat) (h : Heard α τ) :
    Heard α τ × Option Fault :=
  match h.1.recordEpoch run epoch with
  | (s, .error fault) => ((s, h.2), some fault)
  | (s, .ok metrics) =>
      let (h, fault) := listener metrics (s, h.2)
      (h, fault.or (h.1.pauseAfter run epoch))

/-- Starts a run that has been set up, and gives the number of its epochs. -/
def startRun (s : Session α) (run : Nat) : Session α × Outcome Nat :=
  match s.trainer? run with
  | none => (s, .error .nothingToTrain)
  | some t =>
      match t.start with
      | .error fault => (s, .error fault)
      | .ok t => ((s.modifyTrainer run fun _ => t).note [t.startNote], t.config.epochCount)

/-- Ends a run, with a note if it went through, and takes it off the register. -/
def endRun (s : Session α) (run : Nat) (wentThrough : Bool) : Session α :=
  let s := s.modifyTrainer run fun t => t.finish
  let log := if wentThrough then ((s.trainer? run).map fun t => t.finishNote).toList else []
  (s.note log).unregister run

/-- The history of a run. -/
def historyOf (s : Session α) (run : Nat) : List (Metrics α) :=
  ((s.trainer? run).map fun t => t.history).getD []

/-- Runs a training for a caller. Who listens is told of each epoch; a failure of an epoch or of
who listens ends the run. -/
def train (s : Session α) (caller : Nat) (config : Value) (pausing : Bool)
    (listener : Listener α τ) (mind : τ) : Heard α τ × Outcome (List (Metrics α)) :=
  match s.openRun caller config pausing with
  | (s, .error fault) => ((s, mind), .error fault)
  | (s, .ok run) =>
      match s.startRun run with
      | (s, .error fault) => ((s.endRun run false, mind), .error fault)
      | (s, .ok count) =>
          match throughEpochs (fun h => stopAsked h.1 run) (tellEpoch run listener) count 1
            (s, mind) with
          | ((s, mind), some fault) => ((s.endRun run false, mind), .error fault)
          | ((s, mind), none) =>
              let s := s.endRun run true
              ((s, mind), .ok (s.historyOf run))

end BlockNet.Session
