import BlockNet.Journal
import BlockNet.Shape.Basic
import BlockNet.Value.Arithmetic
/-! # Datasets

A dataset is described by the number of its samples, the axes of a sample, the number of classes,
and how well the classes stand apart. -/

namespace BlockNet

/-- The description of a dataset: it has samples in both splits, and classes to tell apart. The axes
of a sample are kept as they are written and read where they are needed. -/
structure DatasetSpec where
  name : Value
  samples : Number
  valSamples : Number
  features : List Value
  classes : Number
  difficulty : Number
  noiseLevel : Number
  samples_ge : samples.lt (.whole 1) = false
  valSamples_ge : valSamples.lt (.whole 1) = false
  classes_ge : classes.lt (.whole 2) = false

namespace DatasetSpec

/-- Describes a dataset by values. Each is read and checked in its turn. -/
def ofValues (name samples valSamples features classes difficulty noiseLevel : Value) :
    Outcome DatasetSpec := do
  let refuse := fun {β : Type} rule => (Except.error (.datasetRequirement name rule) : Outcome β)
  let samples ← orMishap .wrongType samples.number?
  if h : samples.lt (.whole 1) = false then
    let valSamples ← orMishap .wrongType valSamples.number?
    if hv : valSamples.lt (.whole 1) = false then
      let classes ← orMishap .wrongType classes.number?
      if hc : classes.lt (.whole 2) = false then
        let difficulty ← orMishap .wrongType difficulty.number?
        if !(Number.lt (.real 0) difficulty && difficulty.le (.real 1)) then
          refuse "difficulty must be in (0, 1]"
        else
          let noiseLevel ← orMishap .wrongType noiseLevel.number?
          if noiseLevel.lt (.real 0) then refuse "noise_level must be >= 0"
          else
            let features ← features.toList
            .ok ⟨name, samples, valSamples, features, classes, difficulty, noiseLevel, h, hv, hc⟩
      else refuse "needs at least two classes"
    else refuse "needs at least one sample per split"
  else refuse "needs at least one sample per split"

/-- The number of entries of a sample: the product of the axes, cut to a whole number. -/
def featureSize (s : DatasetSpec) : Outcome Int :=
  match s.features with
  | [axis] => axis.toInt
  | axes => do
      let sizes ← axes.mapM fun v => orMishap .wrongType v.number?
      (← sizes.foldlM Number.times (.whole 1)).toInt

/-- The shape of a batch of samples. -/
def inputShape (s : DatasetSpec) : Outcome TensorShape := do
  let dims ← s.features.mapM Dim.ofValue
  .ok (TensorShape.batched dims .float32)

/-- The shape of a batch of labels. -/
def labelShape : TensorShape := TensorShape.batched [.size 1] .int32

/-- Small grey images of ten classes, the dataset that stands in for unknown ones. -/
def mnist : DatasetSpec :=
  { name := .text "mnist"
    samples := .whole 60000
    valSamples := .whole 10000
    features := [.int 28, .int 28, .int 1]
    classes := .whole 10
    difficulty := .real 0.8
    noiseLevel := .real 0.1
    samples_ge := rfl
    valSamples_ge := rfl
    classes_ge := rfl }

/-- Small colour images of ten classes. -/
def cifar : DatasetSpec :=
  { mnist with
    name := .text "cifar10"
    samples := .whole 50000
    samples_ge := rfl
    features := [.int 32, .int 32, .int 3]
    difficulty := .real 0.6
    noiseLevel := .real 0.15 }

/-- Measured flowers of three classes. -/
def iris : DatasetSpec :=
  { name := .text "iris"
    samples := .whole 120
    valSamples := .whole 30
    features := [.int 4]
    classes := .whole 3
    difficulty := .real 0.9
    noiseLevel := .real 0.05
    samples_ge := rfl
    valSamples_ge := rfl
    classes_ge := rfl }

/-- Embedded texts of two classes. -/
def text : DatasetSpec :=
  { name := .text "text"
    samples := .whole 2000
    valSamples := .whole 500
    features := [.int 128, .int 512]
    classes := .whole 2
    difficulty := .real 0.7
    noiseLevel := .real 0.1
    samples_ge := rfl
    valSamples_ge := rfl
    classes_ge := rfl }

/-- The datasets that are known by name. -/
def stock : List (String × DatasetSpec) :=
  [("mnist", mnist), ("cifar10", cifar), ("iris", iris), ("text", text)]

/-- The dataset of a name in any letter case; none if the name is unknown. -/
def named? (name : Value) : Option DatasetSpec :=
  (stock.find? (·.1 == name.plain.map Char.toLower)).map (·.2)

/-- The dataset that a value names. An unknown name is noted and stands for the default, and so
does null. -/
def find (name : Value) : DatasetSpec × List LogEntry :=
  match name with
  | .null => (mnist, [])
  | name =>
      match named? name with
      | some spec => (spec, [])
      | none => (mnist,
          [.warning ("Unknown dataset " ++ name.shown ++ "; falling back to mnist")])

end DatasetSpec

end BlockNet
