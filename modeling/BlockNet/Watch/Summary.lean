import BlockNet.Decimal.Layout
import BlockNet.Tensor.Scalar
import BlockNet.Value.Arithmetic
/-! # Summaries of gradients

Records come from a watcher, or are spelled out by values. They are written in one way: as values,
each of which must do for its place in a line. -/

namespace BlockNet

/-- How many members of a list a value asks for: null for all of them. -/
def Value.sliceCount : Value → Outcome (Option Int)
  | .null => .ok none
  | v => (orMishap .wrongType (v.number?.bind Number.integer?)).map some

/-- The first `n` members of a list, all without a count; a negative count leaves out as many at
the end. -/
def upTo {β : Type} (n : Option Int) (items : List β) : List β :=
  match n with
  | none => items
  | some (.ofNat n) => items.take n
  | some (.negSucc n) => items.take (items.length - (n + 1))

/-- The text with blanks behind it up to a width. -/
def padded (width : Nat) (s : String) : String :=
  s ++ String.ofList (List.replicate (width - s.length) ' ')

/-- The text with blanks in front of it up to a width. -/
def indented (width : Nat) (s : String) : String :=
  String.ofList (List.replicate (width - s.length) ' ') ++ s

/-- What was seen of the gradients at a layer or a weight: over how many steps, their norm, the
largest entry, the share of zeros, and the norm of the weights themselves. -/
structure GradientRecord (ν : Type) where
  name : Value
  kind : Value
  steps : Value
  norm : ν
  largest : ν
  zeroShare : ν
  weightNorm : ν

/-- The record with its figures changed. -/
def GradientRecord.map {ν μ : Type} (f : ν → μ) (r : GradientRecord ν) : GradientRecord μ :=
  { name := r.name, kind := r.kind, steps := r.steps, norm := f r.norm, largest := f r.largest
    zeroShare := f r.zeroShare, weightNorm := f r.weightNorm }

namespace GradientRecord

/-- The record that values spell out, one after the other. -/
def ofValue (v : Value) : Outcome (GradientRecord Value) := do
  match ← v.toList with
  | [name, kind, steps, norm, largest, zeroShare, weightNorm] =>
      .ok ⟨name, kind, steps, norm, largest, zeroShare, weightNorm⟩
  | _ => mishap .wrongType

/-- The norm of the gradient beside that of the weights. Without weights to move it is infinite,
unless there is no gradient either. -/
def updateRatio (r : GradientRecord Value) : Outcome Float :=
  if r.weightNorm.equal false (.real 0) then do
    let norm ← orMishap .wrongType r.norm.number?
    .ok (if Number.lt (.real 0) norm then 1.0 / 0.0 else 0)
  else do
    let norm ← orMishap .wrongType r.norm.number?
    norm.dividedBy (← orMishap .wrongType r.weightNorm.number?)

/-- A value at the left of a column: texts and numbers have a place there. -/
def column (width : Nat) (v : Value) : Outcome String :=
  match v with
  | .text s => .ok (padded width s)
  | .bool b => .ok (padded width (if b then "1" else "0"))
  | .int _ | .real _ => .ok (padded width v.plain)
  | _ => mishap .wrongType

/-- The record in a line. -/
def line (r : GradientRecord Value) : Outcome String := do
  let name ← column 24 r.name
  let kind ← column 18 r.kind
  let norm ← r.norm.figure
  let largest ← r.largest.figure
  let ratio ← r.updateRatio
  let zeroShare ← r.zeroShare.figure
  let figure := Decimal.exponential 3
  .ok (name ++ " " ++ kind ++ " grad=" ++ figure norm ++ " max=" ++ figure largest ++ " ratio="
    ++ figure ratio ++ " dead=" ++ indented 6 (Decimal.percent 2 zeroShare))

end GradientRecord

/-- Records of layers and of single weights. -/
structure GradientSummary (ν : Type) where
  layers : List (GradientRecord ν)
  weights : List (GradientRecord ν)

namespace GradientSummary

/-- The figures of a summary as values. -/
def toValues {α : Type} [Scalar α] (s : GradientSummary α) : GradientSummary Value :=
  let written := GradientRecord.map fun x : α => Value.real (Scalar.toFloat x)
  ⟨s.layers.map written, s.weights.map written⟩

/-- The norm below which a gradient counts as vanishing. -/
def quiet : Float := 1e-7

/-- The names of the layers whose gradients are shorter than a norm. -/
def vanishing (s : GradientSummary Value) (threshold : Float) : Outcome (List Value) := do
  let names ← s.layers.mapM fun r => do
    let norm ← orMishap .wrongType r.norm.number?
    .ok (if norm.lt (.real threshold) then [r.name] else [])
  .ok names.flatten

/-- A heading and the first records below it; nothing without records. -/
def listed (heading : String) (records : List (GradientRecord Value)) (count : Value) :
    Outcome (List String) :=
  if records.isEmpty then .ok []
  else do
    let lines ← (upTo (← count.sliceCount) records).mapM GradientRecord.line
    .ok (heading :: lines.map ("  " ++ ·))

/-- A name among others in a line, which must be a text. -/
def listedName : Value → Outcome String
  | .text s => .ok s
  | _ => mishap .wrongType

/-- The summary as lines. -/
def lines (s : GradientSummary Value) (count : Value) : Outcome (List String) := do
  let layers ← listed "Layer gradients:" s.layers count
  let weights ← listed "Weight gradients:" s.weights count
  let names ← s.vanishing quiet
  if names.isEmpty then .ok (layers ++ weights)
  else
    let names ← names.mapM listedName
    .ok (layers ++ weights ++ ["Vanishing: " ++ ", ".intercalate names])

/-- The summary as text. -/
def text (s : GradientSummary Value) (count : Value) : Outcome String := do
  .ok ("\n".intercalate (← s.lines count))

end GradientSummary

end BlockNet
