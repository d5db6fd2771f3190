import BlockNet.Decimal.Layout
import BlockNet.Tensor.Scalar
import BlockNet.Value.Arithmetic
/-! # What an epoch came to -/

namespace BlockNet

/-- The figures of an epoch. -/
structure Metrics (ν : Type) where
  epoch : Value
  loss : ν
  accuracy : ν
  validationLoss : Option ν
  validationAccuracy : Option ν
  learningRate : Option ν
  gradientNorm : Option ν

namespace Metrics

variable {ν : Type}

/-- The figures that are there under their names. -/
def figures (m : Metrics ν) : List (String × ν) :=
  [("loss", m.loss), ("accuracy", m.accuracy)]
    ++ [("valLoss", m.validationLoss), ("valAccuracy", m.validationAccuracy),
        ("learningRate", m.learningRate), ("gradientNorm", m.gradientNorm)].filterMap
      fun (name, figure?) => figure?.map fun figure => (name, figure)

/-- How a figure is written: a label, and the figure with four places or as a power of ten. -/
def figureText (layout : Float → String) (label : String) (double : ν → Outcome Float)
    (figure : Option ν) : Outcome String :=
  match figure with
  | none => .ok ""
  | some x => do .ok (" " ++ label ++ "=" ++ layout (← double x))

/-- The metrics in a line, from the doubles that stand for the figures. -/
def text (m : Metrics ν) (double : ν → Outcome Float) : Outcome String := do
  let loss ← figureText (Decimal.fixed 4) "loss" double m.loss
  let accuracy ← figureText (Decimal.fixed 4) "acc" double m.accuracy
  let validationLoss ← figureText (Decimal.fixed 4) "val_loss" double m.validationLoss
  let validationAccuracy ← figureText (Decimal.fixed 4) "val_acc" double m.validationAccuracy
  let rate ← figureText (Decimal.exponential 2) "lr" double m.learningRate
  let norm ← figureText (Decimal.exponential 4) "grad_norm" double m.gradientNorm
  .ok ("Epoch " ++ m.epoch.plain ++ loss ++ accuracy ++ validationLoss ++ validationAccuracy
    ++ rate ++ norm)

/-- The names of the figures of an epoch, those that must be given first. -/
def names : List String :=
  ["epoch", "loss", "accuracy", "val_loss", "val_accuracy", "learning_rate", "gradient_norm"]

/-- Metrics by entries. The epoch and its loss and accuracy must be given, and nothing else may
be but the other figures. -/
def ofEntries (entries : Entries) : Outcome (Metrics Value) := do
  let optional := fun name => match entries.getNull name with
    | .null => none
    | v => some v
  let required := fun name => orMishap .wrongType (entries.get? name)
  if !entries.all fun e => names.any fun name => e.1.sameKey name then mishap .wrongType
  else
    .ok ⟨← required "epoch", ← required "loss", ← required "accuracy", optional "val_loss",
      optional "val_accuracy", optional "learning_rate", optional "gradient_norm"⟩

end Metrics

end BlockNet
