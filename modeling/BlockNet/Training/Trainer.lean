import BlockNet.Text.Blank
import BlockNet.Training.Metrics
import BlockNet.Training.Step
/-! # Training runs

A trainer goes through epochs until all are done, one of them fails or a stop is asked for. A stop
takes effect between epochs, so an epoch that has begun is recorded, and it stays asked for. -/

namespace BlockNet

/-- A model in training: where its batches come from, how it is trained, and how far it is. A pausing
trainer makes a break between epochs. -/
structure Trainer (α : Type) where
  learner : Learner α
  source : Source α
  validation : Option (Source α)
  config : TrainingConfig
  pausing : Bool
  summaryCount : Value
  history : List (Metrics α)
  stopRequested : Bool
  running : Bool
  finished : Bool

namespace Trainer

variable {α : Type} [Scalar α]

/-- The batches of the dataset that a model names, in the sizes of a configuration, with the
validation split unless it is left out. -/
def sourcesOf (m : Model α) (c : TrainingConfig) :
    Outcome (Source α × Option (Source α)) × List LogEntry :=
  let name := m.dataset.elim .null Value.text
  let (plans, log) := Dataset.load name c.batchSize.toValue c.seed (c.get .batchesPerEpoch)
    (c.validationBatches.larger (.whole 1)).toValue
  let validated := Number.lt (.whole 0) c.validationBatches
  (plans.map fun (train, validation) =>
    (.planned train, if validated then some (.planned validation) else none), log)

/-- A trainer at its start. -/
def ofSources (m : Model α) (c : TrainingConfig) (source : Source α)
    (validation : Option (Source α)) (watcher : Option (Watcher α)) : Outcome (Trainer α) := do
  let seed ← c.seed.toInt
  .ok { learner := ⟨m, ⟨c.optimizer, c.momentum, []⟩, watcher, Generator.seeded seed,
          .silent 0⟩
        source, validation, config := c, pausing := false, summaryCount := .int 5, history := []
        stopRequested := false, running := false, finished := false }

/-- A trainer for a model, which must be there. Without batches given, those of the dataset that
the model names are taken. -/
def build (m : Option (Model α)) (config : Value) (source validation : Option (Source α))
    (watcher : Option (Watcher α)) : Outcome (Trainer α) × List LogEntry :=
  match m with
  | none => (.error .nothingToTrain, [])
  | some m =>
      match TrainingConfig.ofValue config, source with
      | .error fault, _ => (.error fault, [])
      | .ok c, some source => (ofSources m c source validation watcher, [])
      | .ok c, none =>
          let (sources, log) := sourcesOf m c
          (do
            let (source, own) ← sources
            ofSources m c source (validation.or own) watcher, log)

/-- The model as trained so far. -/
def model (t : Trainer α) : Model α := t.learner.model

/-- The trainer with another state of its model. -/
def withModel (t : Trainer α) (m : Model α) : Trainer α :=
  { t with learner := { t.learner with model := m } }

/-- Asks the trainer to stop after the running epoch. -/
def stop (t : Trainer α) : Trainer α := { t with stopRequested := true }

/-- Starts a run, which must not be running. -/
def start (t : Trainer α) : Outcome (Trainer α) :=
  if t.running then .error .alreadyRunning
  else .ok { t with history := [], finished := false, running := true }

/-- The note on a start. -/
def startNote (t : Trainer α) : LogEntry := .info ("Training started: " ++ t.config.shown)

/-- Ends a run. -/
def finish (t : Trainer α) : Trainer α := { t with running := false, finished := true }

/-- The note on the end of a run that went through. -/
def finishNote (t : Trainer α) : LogEntry :=
  let early := Number.lt (.whole t.history.length) t.config.epochs
  let verb := if t.stopRequested && early then "stopped" else "finished"
  .info s!"Training {verb} after {t.history.length} epoch(s)"

/-- Loss and accuracy on the validation split, if there is one. -/
def validate (t : Trainer α) : Trainer α × Outcome (Option (Totals α)) :=
  match t.validation with
  | none => (t, .ok none)
  | some source =>
      match source.epoch (.int 1) with
      | .error fault => (t, .error fault)
      | .ok batches =>
          let (audience, totals) := t.model.evaluateAll t.config.loss batches t.learner.audience
          ({ t with learner := { t.learner with audience } }, totals)

/-- Learns from all batches of an epoch. -/
def learnEpoch (t : Trainer α) (epoch : Nat) (rate : Number) :
    Trainer α × Outcome (Totals α) :=
  match t.source.epoch (.int epoch) with
  | .error fault => (t, .error fault)
  | .ok batches =>
      let regime : Regime := ⟨t.config.loss, rate, t.config.gradientLimit⟩
      let (learner, totals) := t.learner.learnAll regime batches Totals.zero batches.count 0
      ({ t with learner }, totals.map fun totals => totals.averaged batches.count)

/-- Trains for an epoch. -/
def trainEpoch (t : Trainer α) (epoch : Nat) : Trainer α × Outcome (Metrics α) :=
  match t.config.learningRateAt (.whole epoch) with
  | .error fault => (t, .error fault)
  | .ok rate =>
      match t.learnEpoch epoch rate with
      | (t, .error fault) => (t, .error fault)
      | (t, .ok totals) =>
          match t.validate with
          | (t, .error fault) => (t, .error fault)
          | (t, .ok validation) =>
              (t, do
                .ok { epoch := .int epoch
                      loss := totals.loss
                      accuracy := totals.accuracy
                      validationLoss := validation.map (·.loss)
                      validationAccuracy := validation.map (·.accuracy)
                      learningRate := some (Scalar.ofFloat (← rate.toFloat))
                      gradientNorm := some totals.norm })

/-- The trainer after its watcher, if there is one, has been asked for a summary since the last one,
and the lines of that. -/
def gradientLines (t : Trainer α) : Trainer α × Outcome (List String) :=
  match t.learner.watcher, t.summaryCount.sliceCount with
  | none, _ => (t, .ok [])
  | some _, .error fault => (t, .error fault)
  | some w, .ok count =>
      let (summary, w) := w.popSummary t.model count
      let lines := summary.elim (.ok []) fun s => (s.toValues.text .null).map Text.lines
      ({ t with learner := { t.learner with watcher := some w } }, lines)

/-- Trains for an epoch and records what it came to. -/
def recordEpoch (t : Trainer α) (epoch : Nat) :
    (Trainer α × List LogEntry) × Outcome (Metrics α) :=
  match t.trainEpoch epoch with
  | (t, .error fault) => ((t, []), .error fault)
  | (t, .ok metrics) =>
      let t := { t with history := t.history ++ [metrics] }
      match metrics.text fun x => .ok (Scalar.toFloat x) with
      | .error fault => ((t, []), .error fault)
      | .ok text =>
          match t.gradientLines with
          | (t, .error fault) => ((t, [.info text]), .error fault)
          | (t, .ok lines) =>
              ((t, .info text :: lines.map fun line => .info ("    " ++ line)), .ok metrics)

end Trainer

/-- Goes through epochs, as many as are left, until a stop is asked for or one fails. -/
def throughEpochs {σ : Type} (stopped : σ → Bool) (epoch : Nat → σ → σ × Option Fault) :
    Nat → Nat → σ → σ × Option Fault
  | 0, _, s => (s, none)
  | left + 1, e, s =>
      if stopped s then (s, none)
      else
        match epoch e s with
        | (s, some fault) => (s, some fault)
        | (s, none) => throughEpochs stopped epoch left (e + 1) s

/-- What who follows a run is told: the figures of an epoch, or the history of a run that went
through. -/
inductive Told (α : Type) where
  | epoch (metrics : Metrics α)
  | complete (history : List (Metrics α))

/-- What who is told something does: asks for a stop or not, and may fail. -/
structure Reaction where
  stops : Bool
  fault? : Option Fault

/-- Who follows a run: whether a stop is asked for while an epoch is gone through, and what is done
at the end of an epoch and of the run, where figures and learner can be looked at. -/
structure Follower (α : Type) where
  meanwhile : Nat → Bool
  onEpoch : Metrics α → Learner α → Reaction
  onComplete : List (Metrics α) → Learner α → Reaction

/-- Nobody follows. -/
def Follower.nobody {α : Type} : Follower α :=
  ⟨fun _ => false, fun _ _ => ⟨false, none⟩, fun _ _ => ⟨false, none⟩⟩

/-- A trainer on its own, what it noted, and what it told who follows its run. -/
structure Noted (α : Type) where
  trainer : Trainer α
  log : List LogEntry
  told : List (Told α)

namespace Trainer

variable {α : Type} [Scalar α]

/-- The trainer after it has been asked to stop, or has not. -/
def heed (t : Trainer α) (stops : Bool) : Trainer α :=
  { t with stopRequested := t.stopRequested || stops }

/-- The break of a pausing trainer after an epoch that is not the last. No clock can tell its end if
it is beyond all doubles. -/
def pauseAfter (t : Trainer α) (epoch : Nat) : Option Fault :=
  if t.pausing && Number.lt (.whole epoch) t.config.epochs then
    match t.config.epochDelay.toFloat with
    | .error fault => some fault
    | .ok _ => none
  else none

/-- Trains for an epoch, records it, tells who follows and makes a break. -/
def tellEpoch (f : Follower α) (epoch : Nat) (s : Noted α) : Noted α × Option Fault :=
  match (s.trainer.heed (f.meanwhile epoch)).recordEpoch epoch with
  | ((t, log), .error fault) => (⟨t, s.log ++ log, s.told⟩, some fault)
  | ((t, log), .ok metrics) =>
      let reaction := f.onEpoch metrics t.learner
      (⟨t.heed reaction.stops, s.log ++ log, s.told ++ [.epoch metrics]⟩,
        reaction.fault?.or (t.pauseAfter epoch))

/-- Ends a run that failed. -/
def breakOff (s : Noted α) : Noted α := { s with trainer := s.trainer.finish }

/-- Ends a run that went through, tells who follows, and gives the history. -/
def complete (f : Follower α) (s : Noted α) : Noted α × Outcome (List (Metrics α)) :=
  let history := s.trainer.history
  let t := s.trainer.finish
  let reaction := f.onComplete history t.learner
  (⟨t.heed reaction.stops, s.log ++ [t.finishNote], s.told ++ [.complete history]⟩,
    reaction.fault?.elim (.ok history) .error)

/-- Runs all epochs. Who follows is told of each one, may ask for a stop, and may fail, which ends
the run. -/
def run (t : Trainer α) (f : Follower α) : Noted α × Outcome (List (Metrics α)) :=
  match t.start with
  | .error fault => (⟨t, [], []⟩, .error fault)
  | .ok t =>
      let begun : Noted α := ⟨t, [t.startNote], []⟩
      match t.config.epochCount with
      | .error fault => (breakOff begun, .error fault)
      | .ok count =>
          match throughEpochs (fun s => s.trainer.stopRequested) (tellEpoch f) count 1 begun with
          | (s, some fault) => (breakOff s, .error fault)
          | (s, none) => complete f s

end Trainer

end BlockNet
