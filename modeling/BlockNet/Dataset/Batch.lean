import BlockNet.Dataset.Spec
import BlockNet.Tensor.Signal
import BlockNet.Value.Arithmetic
/-! # Batches of a synthetic dataset

Every class has a fixed prototype, and a sample is the prototype of its class, scaled by how well
the classes stand apart, plus noise. Prototypes and batches are drawn from streams of their own:
the training split draws fresh samples in each epoch, the validation split the same ones. -/

namespace BlockNet

/-- The parts of a dataset. -/
inductive Split where
  | train
  | validation
  deriving DecidableEq, Repr

namespace Split

/-- The written name of a split. -/
def name : Split → String
  | .train => "train"
  | .validation => "val"

/-- The split that a value names. -/
def ofValue (v : Value) : Outcome Split :=
  match v with
  | .text "train" => .ok .train
  | .text "val" => .ok .validation
  | v => .error (.unknownSplit v)

/-- The place of a split. -/
def place : Split → Int
  | .train => 1
  | .validation => 2

end Split

/-- Samples of features with a class label each. -/
structure Batch (α : Type) where
  inputs : Signal α
  labels : Signal α

/-- One split of a dataset, cut into batches. `limit` bounds the batches of an epoch. -/
structure BatchPlan where
  spec : DatasetSpec
  split : Split
  batchSize : Number
  seed : Value
  limit : Option Number

namespace BatchPlan

/-- The axes of the prototypes: a row of features per class. -/
def prototypeSizes (spec : DatasetSpec) : Outcome (List Nat) := do
  drawnSizes (← (spec.classes.toValue :: spec.features).mapM Value.toInt)

/-- A plan by values, each checked in its turn. -/
def ofValues (spec : DatasetSpec) (split batchSize seed limit : Value) : Outcome BatchPlan := do
  let split ← Split.ofValue split
  let batchSize ← orMishap .wrongType batchSize.number?
  demand (!batchSize.lt (.whole 1)) "batch_size must be >= 1"
  let limit ← match limit with
    | .null => .ok none
    | v => do
        let n ← orMishap .wrongType v.number?
        demand (!n.lt (.whole 1)) "max_batches must be >= 1 when provided"
        .ok (some n)
  let _ ← seed.toInt
  let _ ← prototypeSizes spec
  .ok { spec, split, batchSize, seed, limit }

/-- The number of samples in the split. -/
def sampleCount (p : BatchPlan) : Number :=
  match p.split with
  | .train => p.spec.samples
  | .validation => p.spec.valSamples

/-- The number of batches in an epoch: as many as hold all samples, unless the limit is less. -/
def batchesPerEpoch (p : BatchPlan) : Outcome Number := do
  let full ← p.sampleCount.ceilDividedBy p.batchSize
  let full := Number.whole (max 1 full)
  .ok (p.limit.elim full full.smaller)

/-- The number of batches to go through; a fraction of a batch cannot be gone through. -/
def batchCount (p : BatchPlan) : Outcome Nat := do
  .ok (← orMishap .wrongType (← p.batchesPerEpoch).integer?).toNat

/-- The seed of the batch at a step of an epoch. The validation split has the same batches in every
epoch. -/
def batchSeed (p : BatchPlan) (epoch : Value) (step : Nat) : Outcome Int := do
  let seed ← orMishap .wrongType p.seed.number?
  let epoch ← match p.split with
    | .train => orMishap .wrongType epoch.number?
    | .validation => .ok (.whole 0)
  let base ← (← seed.times (.whole 1000003)).plus (.whole (p.split.place * 7919))
  (← (← base.plus (← epoch.times (.whole 101))).plus (.whole step)).toInt

/-- What is left of some samples after so many batches. -/
def leftAfter (size : Number) : Nat → Number → Outcome Number
  | 0, left => .ok left
  | steps + 1, left => do leftAfter size steps (← left.minus (size.smaller left))

/-- The number of samples in the batch at a step: a full batch, or what is left of the samples. -/
def batchRows (p : BatchPlan) (step : Nat) : Outcome Nat :=
  match p.batchSize.integer?, p.sampleCount.integer? with
  | some size, some count => .ok (min size (count - step * size)).toNat
  | _, _ => do
      let rows ← (p.batchSize.smaller (← leftAfter p.batchSize step p.sampleCount)).toInt
      .ok rows.toNat

variable {α : Type} [Scalar α]

/-- The number in `[-2, 2)` that stands behind the draw after `n` others. -/
def noiseAt (g : Generator) (n : Nat) : α :=
  Scalar.ofInt 4 * (Scalar.ofInt (g.drawAt n) / Scalar.ofInt Generator.range) - Scalar.ofInt 2

/-- The prototypes of the classes. -/
def prototypes (p : BatchPlan) : Outcome (Tensor α) := do
  let dims ← prototypeSizes p.spec
  let seed ← p.seed.toInt
  .ok (Tensor.ofFn dims (noiseAt (Generator.seeded seed)))

/-- How much of a sample is its prototype, and how much is noise. -/
def mixture (spec : DatasetSpec) : Outcome (Float × Float) := do
  let difficulty ← spec.difficulty.toFloat
  let noise ← spec.noiseLevel.toFloat
  .ok (difficulty, 1.0 - difficulty + noise)

/-- The class that a draw picks among a number of classes: the rest of the draw, cut to a whole
number. -/
def classOf (classes : Number) (draw : Nat) : Nat :=
  match classes.fraction? with
  | some (num, den) => draw * den % num.toNat / den
  | none => draw

/-- The class labels drawn for a batch of so many rows. -/
def labelsFrom (p : BatchPlan) (g : Generator) (rows : Nat) : Tensor Int :=
  Tensor.ofFn [rows] fun i => (classOf p.spec.classes (g.drawAt i) : Nat)

/-- The batch at a step of an epoch, around given prototypes. Every class that is drawn must have
one. -/
def batchAt (p : BatchPlan) (prototypes : Tensor α) (epoch : Value) (step : Nat) :
    Outcome (Batch α) := do
  let rows ← p.batchRows step
  let g := Generator.seeded (← p.batchSeed epoch step)
  let (near, far) ← mixture p.spec
  let labels := p.labelsFrom g rows
  let features := prototypes.dims.tail
  let width := volume features
  if labels.entries.any fun label => (prototypes.dims.headD 0 : Int) ≤ label then mishap .badIndex
  else
    let inputs := Tensor.ofFn (rows :: features) fun i =>
      let label := (labels.entries.getD (i / width) 0).toNat
      Scalar.ofFloat near * prototypes.entry (label * width + i % width)
        + Scalar.ofFloat far * noiseAt g (rows + i)
    .ok ⟨.real inputs, .whole labels⟩

/-- What the plan tells about itself. -/
def metadata (p : BatchPlan) : Outcome Entries := do
  .ok [("dataset", p.spec.name), ("split", .text p.split.name),
    ("num_samples", p.sampleCount.toValue), ("num_classes", p.spec.classes.toValue),
    ("batch_size", p.batchSize.toValue), ("batches_per_epoch", (← p.batchesPerEpoch).toValue)]

/-- The plan in a line. -/
def summary (p : BatchPlan) : Outcome String := do
  let features := " × ".intercalate (p.spec.features.map Value.plain)
  let batches ← p.batchesPerEpoch
  .ok (p.spec.name.plain ++ " " ++ p.split.name ++ " split: " ++ p.sampleCount.toValue.plain
    ++ " samples of " ++ features ++ " (" ++ p.spec.classes.toValue.plain ++ " classes, batch="
    ++ p.batchSize.toValue.plain ++ ", steps/epoch=" ++ batches.toValue.plain ++ ")")

end BatchPlan

/-- The batches of an epoch, one after the other. -/
structure Epoch (α : Type) where
  count : Nat
  batchAt : Nat → Outcome (Batch α)

/-- Where batches come from: the same ones in every epoch, or those of a plan. -/
inductive Source (α : Type) where
  | fixed (batches : List (Batch α))
  | planned (plan : BatchPlan)

/-- The batches of an epoch. -/
def Source.epoch {α : Type} [Scalar α] (s : Source α) (epoch : Value) : Outcome (Epoch α) :=
  match s with
  | .fixed batches => .ok ⟨batches.length, fun k => orMishap .badIndex batches[k]?⟩
  | .planned plan => do
      let prototypes ← plan.prototypes
      .ok ⟨← plan.batchCount, plan.batchAt prototypes epoch⟩

namespace Dataset

/-- The training and the validation split of a dataset, which share their prototypes, with what
was noted. -/
def load (name batchSize seed limit validationLimit : Value) :
    Outcome (BatchPlan × BatchPlan) × List LogEntry :=
  let (spec, log) := DatasetSpec.find name
  let plan := fun split limit => BatchPlan.ofValues spec (.text split) batchSize seed limit
  (do .ok (← plan "train" limit, ← plan "val" validationLimit), log)

/-- The options of a dataset and what stands for those that are not given. -/
def defaults : Entries :=
  [("batch_size", .int 32), ("seed", .int 0), ("max_batches", .null), ("val_batches", .null)]

/-- The splits of a dataset under named options, of which none may be unknown. -/
def loadWith (name : Value) (options : Entries) :
    Outcome (BatchPlan × BatchPlan) × List LogEntry :=
  let get := (defaults.merge options).getNull
  if options.keys.all defaults.has then
    load name (get "batch_size") (get "seed") (get "max_batches") (get "val_batches")
  else (mishap .wrongType, [])

end Dataset

end BlockNet
