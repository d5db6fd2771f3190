import BlockNet.Shape.Basic
/-! # The axes a layer works on

A layer looks at its input as feature vectors, as images or as sequences. Each view needs sizes
that are known before data arrives; a shape without them cannot be resolved. -/

namespace BlockNet

/-- Height, width and channels. -/
structure ImageSize where
  height : Nat
  width : Nat
  channels : Nat
  deriving DecidableEq, Repr

/-- The image view of one sample of given sizes: a flat sample is a square image if its size is a
square and a column otherwise. -/
def ImageSize.ofSizes? : List Nat → Option ImageSize
  | [h, w, c] => some ⟨h, w, c⟩
  | [h, w] => some ⟨h, w, 1⟩
  | [n] =>
      let side := n.sqrt
      some (if side * side = n then ⟨side, side, 1⟩ else ⟨n, 1, 1⟩)
  | _ => none

/-- The number of entries of an image. -/
def ImageSize.size (i : ImageSize) : Nat := i.height * i.width * i.channels

/-- Steps and features of a sequence. -/
structure SequenceSize where
  steps : Nat
  features : Nat
  deriving DecidableEq, Repr

/-- The sequence view of one sample of given sizes: the last axis holds the features, all others
are folded into steps. -/
def SequenceSize.ofSizes? (sizes : List Nat) : Option SequenceSize :=
  sizes.getLast?.map fun features => ⟨volume sizes.dropLast, features⟩

namespace TensorShape

/-- The sizes of axes that must be fixed. `what` names the axes in the fault. -/
def fixedSizes (s : TensorShape) (kind : String) (dims : List Dim) (what : String) :
    Outcome (List Nat) :=
  match sizes? dims with
  | some sizes => .ok sizes
  | none => .error (.unresolvedShape kind (s!"{what} of {s.describe} is not known at compile time"))

/-- The size of the last axis. -/
def featureSize (s : TensorShape) (kind : String) : Outcome Nat :=
  match s.dims.getLast? with
  | none => .error (.unresolvedShape kind "expects at least one feature axis, got a scalar")
  | some last => do
      match ← s.fixedSizes kind [last] "last axis" with
      | [n] => .ok n
      | _ => .ok 0

/-- The image view of a shape. -/
def imageSize (s : TensorShape) (kind : String) : Outcome ImageSize := do
  let sample := s.sampleDims
  let what := if sample.length = 1 then "feature axis" else "image axes"
  let cannot : Fault := .unresolvedShape kind (s!"cannot view {s.describe} as an image")
  if sample.length = 0 ∨ 3 < sample.length then .error cannot
  else
    match ImageSize.ofSizes? (← s.fixedSizes kind sample what) with
    | some image => .ok image
    | none => .error cannot

/-- The sequence view of a shape. -/
def sequenceSize (s : TensorShape) (kind : String) : Outcome SequenceSize := do
  let sample := s.sampleDims
  let what := if sample.length = 1 then "feature axis" else "sequence axes"
  let cannot : Fault := .unresolvedShape kind (s!"expects a sequence, got {s.describe}")
  if sample.isEmpty then .error cannot
  else
    match SequenceSize.ofSizes? (← s.fixedSizes kind sample what) with
    | some sequence => .ok sequence
    | none => .error cannot

/-- A batch axis before written sizes, of real numbers. -/
def ofSample (sizes : List Int) : Outcome TensorShape := do
  let dims ← sizes.mapM Dim.ofInt
  .ok (batched dims .float32)

end TensorShape

end BlockNet
