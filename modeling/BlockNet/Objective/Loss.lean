import BlockNet.Layer.Activation
import BlockNet.Objective.Rows
import BlockNet.Value.Arithmetic
/-! # Losses

A loss measures every sample on its own; a reduction makes one number of the samples. With each
loss stands its slope at the predictions, which training follows downhill. -/

namespace BlockNet

/-- What training makes small. -/
inductive Objective where
  | crossEntropy
  | squaredError
  deriving DecidableEq, Repr

/-- How the losses of samples are put together. -/
inductive Reduction where
  | mean
  | sum
  | each
  deriving DecidableEq, Repr

namespace Reduction

/-- The reduction that a value names. -/
def ofValue (v : Value) : Outcome Reduction :=
  match v with
  | .text "mean" => .ok .mean
  | .text "sum" => .ok .sum
  | .text "none" => .ok .each
  | v => .error (.unsupportedReduction v)

variable {α : Type} [Scalar α]

/-- The losses of samples put together. -/
def apply (r : Reduction) (losses : Tensor α) : Tensor α :=
  match r with
  | .mean => Tensor.filled [] (Scalar.mean losses.size losses.entry)
  | .sum => Tensor.filled [] losses.total
  | .each => losses

/-- How much each of `n` samples adds to the whole. -/
def share (r : Reduction) (n : Nat) : α :=
  match r with
  | .mean => Scalar.one / Scalar.ofInt n
  | _ => Scalar.one

end Reduction

namespace Objective

/-- The written name of an objective. -/
def name : Objective → String
  | .crossEntropy => "crossEntropy"
  | .squaredError => "mse"

/-- All objectives. -/
def all : List Objective := [.crossEntropy, .squaredError]

/-- The objective that a value names; the value must be able to be a key. -/
def ofName (name : Value) : Outcome Objective :=
  match all.find? fun o => name.sameKey o.name with
  | some o => .ok o
  | none => if name.hashable then .error (.unknownLoss name) else mishap .wrongType

variable {α : Type} [Scalar α]

/-- The least probability that a logarithm is taken of. -/
def probabilityFloor : α := Scalar.one / Scalar.ofInt 10000000

/-- How far the sum of probabilities may be from one. -/
def sumTolerance : α := Scalar.one / Scalar.ofInt 1000

/-- Could every row be a distribution? No entry is negative, and every row sums to one within a
tolerance. Without entries nothing is. -/
def looksLikeProbabilities (rows : Tensor α) (tolerance : α) : Bool :=
  let count := rows.size / rows.width
  let sumsToOne := fun r =>
    let sum := Scalar.sum rows.width fun k => rows.entry (r * rows.width + k)
    let distance := Scalar.magnitude (sum - Scalar.one)
    Scalar.isFinite distance
      && Scalar.atMost distance (tolerance + Scalar.one / Scalar.ofInt 100000)
  rows.size != 0 && rows.entries.all (fun x => !Scalar.less x 0)
    && (List.range count).all sumsToOne

/-- Could every row be a distribution, within a tolerance that a value gives? The tolerance is read
only if the entries do not settle it, and may not be negative. -/
def checkProbabilities (rows : Tensor α) (tolerance : Value) : Outcome Bool :=
  if rows.size = 0 ∨ rows.entries.any fun x => Scalar.less x 0 then .ok false
  else do
    let tolerance ← (← orMishap .wrongType tolerance.number?).toFloat
    if 0 ≤ tolerance then .ok (looksLikeProbabilities rows (Scalar.ofFloat tolerance))
    else mishap .badTensor

/-- A probability, raised to the least one that a logarithm is taken of. -/
def raised (p : α) : α := if Scalar.less p probabilityFloor then probabilityFloor else p

/-- The logarithm of the share of the `k`-th of `n` scores. The largest score is taken off first,
which changes no share. -/
def logShare (n : Nat) (f : Nat → α) (k : Nat) : α :=
  let top := Scalar.largest (n - 1) f
  f k - top - Scalar.log (Scalar.sum n fun j => Scalar.exp (f j - top))

/-- The score of each labelled class, by row. The labels may not outnumber the rows; rows beyond
the labels are left out. -/
def pickedAt (rows : Tensor α) (labels : List Nat) (i : Nat) : Nat :=
  i * rows.width + labels.getD i 0

/-- Minus the logarithm of the probability of each label. Rows that look like distributions are
taken as such, all others as scores. -/
def crossEntropies (rows : Tensor α) (labels : List Nat) : Outcome (Tensor α) :=
  if !labels.isEmpty && rows.dims.headD 0 < labels.length then mishap .badTensor
  else
    let probable := looksLikeProbabilities rows sumTolerance
    .ok (Tensor.ofFn [labels.length] fun i =>
      if probable then -Scalar.log (raised (rows.entry (pickedAt rows labels i)))
      else -logShare rows.width (fun k => rows.entry (i * rows.width + k)) (labels.getD i 0))

/-- The slopes of the cross-entropy at the rows, from the part of each sample in the whole. -/
def crossEntropySlopes (rows : Tensor α) (labels : List Nat) (part : α) : Tensor α :=
  let probable := looksLikeProbabilities rows sumTolerance
  Tensor.ofRows rows.dims rows.width fun r =>
    let score := fun k => rows.entry (r * rows.width + k)
    if probable then
      Tensor.row rows.width fun k =>
        if labels[r]? = some k && !Scalar.less (score k) probabilityFloor then -(part / score k)
        else 0
    else
      let shares := Activation.shares rows.width score
      match labels[r]? with
      | none => Tensor.row rows.width fun k => 0 - shares.getD k 0 * 0
      | some label =>
          Tensor.row rows.width fun k =>
            part * (shares.getD k 0 - if k = label then Scalar.one else 0)

/-- What squared errors are measured from: real labels as they are, a row per row of scores, and
all others as rows with a single one. -/
def targets (rows : Tensor α) (labels : Signal α) : Outcome (Tensor α) :=
  match labels with
  | .real t =>
      let count := rows.dims.headD 0
      if count = 0 then mishap .badTensor else t.reshape [count, t.size / count]
  | labels => oneHot labels (.int rows.width)

/-- The mean of the squared distances in each row. -/
def squaredErrors (rows targets : Tensor α) : Outcome (Tensor α) := do
  let distances ← rows.zipWith (· - ·) targets
  .ok (Tensor.ofFn [distances.dims.headD 0] fun r =>
    Scalar.mean distances.width fun k => Scalar.square (distances.entry (r * distances.width + k)))

/-- The slopes of the squared error at the rows, from the part of each sample in the whole. -/
def squaredErrorSlopes (rows targets : Tensor α) (part : α) : Outcome (Tensor α) := do
  let distances ← rows.zipWith (· - ·) targets
  .ok ((distances.map fun d => part * (Scalar.ofInt 2 * d) / Scalar.ofInt distances.width).reduced
    rows.dims)

/-- The loss of every sample. -/
def perSample (o : Objective) (predictions labels : Signal α) : Outcome (Tensor α) := do
  let rows ← scoreRows predictions
  match o with
  | .crossEntropy => do crossEntropies rows (← classLabels labels (.int rows.width))
  | .squaredError => do squaredErrors rows (← targets rows labels)

/-- The loss under a reduction. -/
def loss (o : Objective) (predictions labels : Signal α) (reduction : Value) :
    Outcome (Tensor α) := do
  let losses ← o.perSample predictions labels
  .ok ((← Reduction.ofValue reduction).apply losses)

/-- The mean loss. -/
def meanLoss (o : Objective) (predictions labels : Signal α) : Outcome α := do
  let losses ← o.perSample predictions labels
  .ok ((Reduction.mean.apply losses).entry 0)

/-- The slopes of the loss at the predictions. Only a loss that is a single number has them. -/
def slopes (o : Objective) (predictions labels : Signal α) (reduction : Reduction) :
    Outcome (Tensor α) := do
  let losses ← o.perSample predictions labels
  let rows ← scoreRows predictions
  if (reduction.apply losses).size ≠ 1 then mishap .badTensor
  else
    let part := reduction.share losses.size
    let g ← match o with
      | .crossEntropy => do
          .ok (crossEntropySlopes rows (← classLabels labels (.int rows.width)) part)
      | .squaredError => do squaredErrorSlopes rows (← targets rows labels) part
    g.reshape predictions.dims

end Objective

end BlockNet
