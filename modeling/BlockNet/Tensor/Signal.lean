import BlockNet.Tensor.Basic
/-! # Signals

What runs between layers: real numbers nearly always, whole numbers where labels are fed in, and
truth values. -/

namespace BlockNet

/-- A tensor of one of three element types. -/
inductive Signal (α : Type) where
  | real (t : Tensor α)
  | whole (t : Tensor Int)
  | truth (t : Tensor Bool)

namespace Signal

variable {α : Type}

/-- The axes of a signal. -/
def dims : Signal α → List Nat
  | .real t => t.dims
  | .whole t => t.dims
  | .truth t => t.dims

/-- The number of entries. -/
def size (s : Signal α) : Nat := volume s.dims

/-- The written name of the element type. -/
def typeName : Signal α → String
  | .real _ => "float32"
  | .whole _ => "int64"
  | .truth _ => "bool"

/-- Does the signal hold real numbers? -/
def isReal : Signal α → Bool
  | .real _ => true
  | _ => false

/-- Does the signal hold truth values? -/
def isTruth : Signal α → Bool
  | .truth _ => true
  | _ => false

/-- The signal as real numbers. -/
def toReal [Scalar α] : Signal α → Tensor α
  | .real t => t
  | .whole t => t.map Scalar.ofInt
  | .truth t => t.map fun b => if b then Scalar.one else 0

/-- The signal as whole numbers; a real number loses its fraction. -/
def toWhole [Scalar α] : Signal α → Tensor Int
  | .real t => t.map Scalar.truncated
  | .whole t => t
  | .truth t => t.map fun b => if b then 1 else 0

/-- The same entries under other axes, which must span as many. -/
def reshape (s : Signal α) (dims : List Nat) : Outcome (Signal α) :=
  match s with
  | .real t => (t.reshape dims).map .real
  | .whole t => (t.reshape dims).map .whole
  | .truth t => (t.reshape dims).map .truth

/-- The size of the first axis, which must be there. -/
def batch (s : Signal α) : Outcome Nat :=
  match s.dims with
  | b :: _ => .ok b
  | [] => .error (.mishap .badIndex)

/-- One row per entry of the first axis. Without any entry of that axis the width of a row is
open. -/
def flattened (s : Signal α) : Outcome (Signal α) := do
  let b ← s.batch
  if b = 0 then .error (.mishap .badTensor) else s.reshape [b, s.size / b]

/-- The signal with another first axis of size one. -/
def unsqueezed : Signal α → Signal α
  | .real t => .real t.unsqueezed
  | .whole t => .whole t.unsqueezed
  | .truth t => .truth t.unsqueezed

/-- The signal without its first axis, if that has size one. -/
def squeezed : Signal α → Signal α
  | .real t => .real t.squeezed
  | .whole t => .whole t.squeezed
  | .truth t => .truth t.squeezed

end Signal

end BlockNet
