import BlockNet.Shape.Basic
/-! # When one shape may feed another -/

namespace BlockNet

/-- May elements of the first type feed a place for the second? -/
def DType.feeds (source target : DType) : Bool := source.level ≤ target.level

/-- May elements of the type that one value names feed a place for the type that another one names?
The second is looked at only if the first names a type. -/
def DType.feedsNamed (source target : Value) : Outcome Bool := do
  match ← DType.find source with
  | none => .ok false
  | some s => do
      let t ← DType.find target
      .ok (t.elim false s.feeds)

/-- The types that elements of a type may feed. -/
def DType.targets (source : DType) : List DType := DType.all.filter source.feeds

/-- The verdict on a producing shape and a consuming template. -/
inductive ShapeVerdict where
  | fits
  | fitsLater
  | ranksDiffer (source target : Nat)
  | sizesDiffer (index source target : Nat)
  deriving DecidableEq, Repr

namespace ShapeVerdict

/-- May the connection be made? -/
def ok : ShapeVerdict → Bool
  | .fits | .fitsLater => true
  | _ => false

/-- The code of a refusal. -/
def code? : ShapeVerdict → Option ErrorCode
  | .ranksDiffer .. => some .rankMismatch
  | .sizesDiffer .. => some .dimensionMismatch
  | _ => none

/-- The message of a refusal. -/
def message? : ShapeVerdict → Option String
  | .ranksDiffer source target => some s!"Dimension mismatch: {source}D → {target}D"
  | .sizesDiffer index source target =>
      some s!"Shape mismatch at dimension {index}: {source} → {target}"
  | _ => none

/-- What a reader is told about a connection that can only be judged when data arrives. -/
def warning? : ShapeVerdict → Option String
  | .fitsLater => some "Shape will be inferred at runtime"
  | _ => none

/-- The axis at which two shapes differ. -/
def index? : ShapeVerdict → Option Nat
  | .sizesDiffer index .. => some index
  | _ => none

end ShapeVerdict

/-- Compares axes of equal count, the first of them at a given index. An open axis on either
side matches anything. -/
def compareDims : Nat → List Dim → List Dim → ShapeVerdict
  | i, .size m :: source, .size n :: target =>
      if m = n then compareDims (i + 1) source target else .sizesDiffer i m n
  | i, _ :: source, _ :: target => compareDims (i + 1) source target
  | _, _, _ => .fits

namespace TensorShape

/-- The verdict on a producing shape and a consuming template. Differing ranks are put off
until data arrives only if the template has an unknown axis and neither side is a scalar. -/
def verdict (source target : TensorShape) : ShapeVerdict :=
  if source.rank = target.rank then compareDims 0 source.dims target.dims
  else if source.rank ≠ 0 ∧ target.rank ≠ 0 ∧ target.hasUnknown then .fitsLater
  else .ranksDiffer source.rank target.rank

/-- May a shape feed a template? -/
def feeds (source target : TensorShape) : Bool := (source.verdict target).ok

end TensorShape

end BlockNet
