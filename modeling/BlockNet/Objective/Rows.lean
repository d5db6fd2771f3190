import BlockNet.Tensor.Signal
import BlockNet.Value.Reading
/-! # Predictions beside labels

Predictions are looked at as one row of scores per sample, and labels as one class per sample. -/

namespace BlockNet

variable {α : Type} [Scalar α]

/-- One row of scores per sample; a single axis is a single row. -/
def scoreRows (predictions : Signal α) : Outcome (Tensor α) :=
  match predictions.dims with
  | [_] => .ok predictions.unsqueezed.toReal
  | _ => predictions.flattened.map Signal.toReal

/-- The classes that labels name, none of which may be negative or reach a number of classes. What
stands for that number is looked at only for labels of which none is negative. -/
def classLabels (labels : Signal α) (classes : Value) : Outcome (List Nat) :=
  let found := labels.toWhole.entries.toList
  match found.min?, found.max? with
  | some low, some high => do
      let below ← if low < 0 then .ok false
        else (orMishap .wrongType classes.number?).map fun n => !n.le (.whole high)
      if below then .ok (found.map Int.toNat) else .error (.labelRange classes low high)
  | _, _ => .ok []

/-- A row per class label that holds a one at the class and zeros elsewhere. -/
def oneHotRows (classes : Nat) (labels : List Nat) : Tensor α :=
  Tensor.ofFn [labels.length, classes] fun i =>
    if labels[i / classes]? = some (i % classes) then Scalar.one else 0

/-- Labels as rows with a single one, as wide as a value says. Without labels and classes the width
of a row is open, and a tensor must be able to hold the rows. -/
def oneHot (labels : Signal α) (classes : Value) : Outcome (Tensor α) := do
  let found ← classLabels labels classes
  match classes with
  | .int width =>
      if found.isEmpty && width ≤ 0 then mishap .badTensor
      else if sizeBound ≤ width ∨ largestVolume < found.length * width.toNat then mishap .badTensor
      else .ok (oneHotRows width.toNat found)
  | _ => mishap .wrongType

/-- The place of the largest of the values of a function at `0, …, n`; of several the first, and
what is no number counts as largest. -/
def Scalar.placeOfLargest (n : Nat) (f : Nat → α) : Nat :=
  n.fold (fun k _ best =>
    if !Scalar.isNan (f best) && (Scalar.less (f best) (f (k + 1)) || Scalar.isNan (f (k + 1)))
    then k + 1 else best) 0

/-- The class of the highest score of each row. -/
def predictedClasses (rows : Tensor α) : List Nat :=
  (List.range (rows.dims.headD 0)).map fun r =>
    Scalar.placeOfLargest (rows.width - 1) fun k => rows.entry (r * rows.width + k)

/-- The share of samples whose highest score stands at their label. A single row is held against
every label, and a single label against every row. Truth values cannot be compared as scores. -/
def accuracy (predictions labels : Signal α) : Outcome α := do
  let rows ← scoreRows predictions
  if rows.width = 0 then mishap .badIndex
  else if predictions.isTruth then mishap .unsupported
  else
    let guesses := (predictedClasses rows).toArray
    let named := labels.toWhole.entries
    let hits ← Tensor.overlaid [guesses.size] [named.size] fun i j =>
      if guesses.getD i 0 = named.getD j 0 then (Scalar.one : α) else 0
    .ok (Scalar.mean hits.size hits.entry)

end BlockNet
