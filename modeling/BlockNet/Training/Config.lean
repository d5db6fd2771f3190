import BlockNet.Objective.Loss
import BlockNet.Value.Arithmetic
/-! # Configurations of a training run

A configuration is read from entries of the editor. A field may be spelled in several ways; of
several entries for one field the last counts, and what names no field is left out. -/

namespace BlockNet

/-- The ways to move weights downhill. -/
inductive Method where
  | sgd
  | adam
  deriving DecidableEq, Repr

namespace Method

/-- The written name of a method. -/
def name : Method → String
  | .sgd => "sgd"
  | .adam => "adam"

/-- The method that a value names, in any letter case. -/
def ofValue (v : Value) : Outcome Method :=
  match Text.lowered v.plain with
  | "sgd" => .ok .sgd
  | "adam" => .ok .adam
  | _ => .error (.unsupportedOptimizer v)

end Method

/-- The spellings of objectives, without letter case and joining marks. -/
def Objective.spellings : List (String × Objective) :=
  [("crossentropy", .crossEntropy), ("categoricalcrossentropy", .crossEntropy),
    ("sparsecategoricalcrossentropy", .crossEntropy), ("mse", .squaredError),
    ("meansquarederror", .squaredError)]

/-- The objective that a value spells, whatever its letter case and joining marks. -/
def Objective.ofValue (v : Value) : Outcome Objective :=
  let letters := v.plain.toList.filter fun c => c != '_' && c != '-'
  let key := Text.lowered (String.ofList letters)
  match (spellings.find? (·.1 == key)).map (·.2) with
  | some o => .ok o
  | none => .error (.unsupportedLoss v)

/-- How a model is trained. -/
structure TrainingConfig where
  epochs : Number
  batchSize : Number
  learningRate : Number
  optimizer : Method
  loss : Objective
  batchesPerEpoch : Option Number
  validationBatches : Number
  momentum : Number
  decay : Number
  decayEvery : Number
  gradientLimit : Option Number
  epochDelay : Number
  seed : Value

namespace TrainingConfig

/-- What a configuration settles. -/
inductive Field where
  | epochs
  | batchSize
  | learningRate
  | optimizer
  | loss
  | batchesPerEpoch
  | validationBatches
  | momentum
  | decay
  | decayEvery
  | gradientLimit
  | epochDelay
  | seed
  deriving DecidableEq, Repr

namespace Field

/-- All fields. -/
def all : List Field :=
  [.epochs, .batchSize, .learningRate, .optimizer, .loss, .batchesPerEpoch, .validationBatches,
    .momentum, .decay, .decayEvery, .gradientLimit, .epochDelay, .seed]

/-- The written name of a field. -/
def name : Field → String
  | .epochs => "epochs"
  | .batchSize => "batch_size"
  | .learningRate => "learning_rate"
  | .optimizer => "optimizer"
  | .loss => "loss_function"
  | .batchesPerEpoch => "batches_per_epoch"
  | .validationBatches => "validation_batches"
  | .momentum => "momentum"
  | .decay => "lr_decay"
  | .decayEvery => "lr_decay_every"
  | .gradientLimit => "grad_clip"
  | .epochDelay => "epoch_delay"
  | .seed => "seed"

/-- Other spellings of a field. -/
def aliases : Field → List String
  | .batchSize => ["batchSize"]
  | .learningRate => ["learningRate", "lr"]
  | .loss => ["lossFunction", "loss"]
  | .batchesPerEpoch => ["batchesPerEpoch"]
  | .validationBatches => ["validationBatches"]
  | .decay => ["lrDecay"]
  | .decayEvery => ["lrDecayEvery"]
  | .gradientLimit => ["gradClip"]
  | .epochDelay => ["epochDelay"]
  | _ => []

/-- The value of a field that nothing is said about. -/
def default : Field → Value
  | .epochs => .int 10
  | .batchSize => .int 32
  | .learningRate => .real 0.001
  | .optimizer => .text "adam"
  | .loss => .text "crossEntropy"
  | .batchesPerEpoch => .int 20
  | .validationBatches => .int 2
  | .momentum => .real 0
  | .decay => .real 0.95
  | .decayEvery => .int 10
  | .gradientLimit => .null
  | .epochDelay => .real 0
  | .seed => .int 0

/-- The field that a key spells. -/
def ofKey? (key : Value) : Option Field :=
  all.find? fun f => (f.name :: f.aliases).any fun name => key.sameKey name

end Field

/-- The value that entries give to a field: that of the last key for it, or its default. -/
def given (entries : Entries) (f : Field) : Value :=
  ((entries.reverse.find? fun e => Field.ofKey? e.1 = some f).map (·.2)).getD f.default

/-- A number, null for none. -/
def optionalNumber (v : Value) : Outcome (Option Number) :=
  match v with
  | .null => .ok none
  | v => (orMishap .wrongType v.number?).map some

/-- The configuration that entries give. Each field is checked in its turn. -/
def ofEntries (entries : Entries) : Outcome TrainingConfig := do
  let number := fun f => orMishap .wrongType (given entries f).number?
  let epochs ← number .epochs
  demand (!epochs.lt (.whole 1)) "epochs must be >= 1"
  let batchSize ← number .batchSize
  demand (!batchSize.lt (.whole 1)) "batch_size must be >= 1"
  let learningRate ← number .learningRate
  demand (Number.lt (.whole 0) learningRate) "learning_rate must be > 0"
  let optimizer ← Method.ofValue (given entries .optimizer)
  let loss ← Objective.ofValue (given entries .loss)
  let batchesPerEpoch ← optionalNumber (given entries .batchesPerEpoch)
  demand (batchesPerEpoch.all fun n => !n.lt (.whole 1)) "batches_per_epoch must be >= 1 when provided"
  let validationBatches ← number .validationBatches
  demand (!validationBatches.lt (.whole 0)) "validation_batches must be >= 0"
  let momentum ← number .momentum
  demand (!momentum.lt (.whole 0)) "momentum must be >= 0"
  let decay ← number .decay
  demand (Number.lt (.whole 0) decay && decay.le (.whole 1)) "lr_decay must be in (0, 1]"
  let decayEvery ← number .decayEvery
  demand (!decayEvery.lt (.whole 1)) "lr_decay_every must be >= 1"
  let gradientLimit ← optionalNumber (given entries .gradientLimit)
  demand (gradientLimit.all fun n => !n.le (.whole 0)) "grad_clip must be > 0 when provided"
  let epochDelay ← number .epochDelay
  demand (!epochDelay.lt (.whole 0)) "epoch_delay must be >= 0"
  .ok { epochs, batchSize, learningRate, optimizer, loss, batchesPerEpoch, validationBatches,
        momentum, decay, decayEvery, gradientLimit, epochDelay, seed := given entries .seed }

/-- The configuration that a value gives; null gives the default one. -/
def ofValue (v : Value) : Outcome TrainingConfig :=
  match v with
  | .null => ofEntries []
  | v => do ofEntries (← v.members)

/-- The value of a field. -/
def get (c : TrainingConfig) (f : Field) : Value :=
  match f with
  | .epochs => c.epochs.toValue
  | .batchSize => c.batchSize.toValue
  | .learningRate => c.learningRate.toValue
  | .optimizer => .text c.optimizer.name
  | .loss => .text c.loss.name
  | .batchesPerEpoch => c.batchesPerEpoch.elim .null Number.toValue
  | .validationBatches => c.validationBatches.toValue
  | .momentum => c.momentum.toValue
  | .decay => c.decay.toValue
  | .decayEvery => c.decayEvery.toValue
  | .gradientLimit => c.gradientLimit.elim .null Number.toValue
  | .epochDelay => c.epochDelay.toValue
  | .seed => c.seed

/-- The fields of a configuration under their names. -/
def entries (c : TrainingConfig) : Entries := Field.all.map fun f => (f.name, c.get f)

/-- The configuration in a line. -/
def shown (c : TrainingConfig) : String :=
  "TrainingConfig(" ++ ", ".intercalate (c.entries.map fun e => e.1.plain ++ "=" ++ e.2.shown) ++ ")"

/-- The number of epochs to go through; a fraction of an epoch cannot be gone through. -/
def epochCount (c : TrainingConfig) : Outcome Nat := do
  .ok (← orMishap .wrongType c.epochs.integer?).toNat

/-- How often the learning rate has decayed at an epoch. -/
def decaysAt (c : TrainingConfig) (epoch : Number) : Outcome Int := do
  (Binary.ofFloat (← epoch.pred.dividedBy c.decayEvery)).floor

/-- The factor of a number of decays. A decay that is a whole number is one, and stays one. -/
def decayFactor (c : TrainingConfig) (count : Int) : Outcome Number :=
  match c.decay with
  | .real x => (Number.realPower x count).map .real
  | _ => .ok (if 0 ≤ count then .whole 1 else .real 1)

/-- The learning rate of an epoch: it decays once in so many epochs. -/
def learningRateAt (c : TrainingConfig) (epoch : Number) : Outcome Number := do
  c.learningRate.times (← c.decayFactor (← c.decaysAt epoch))

end TrainingConfig

end BlockNet
