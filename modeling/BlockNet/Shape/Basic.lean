import BlockNet.Shape.Volume
import BlockNet.Value.Reading
/-! # Tensor shapes

A shape is a list of dimensions and an element type. A dimension is a size, the batch axis or
an unknown axis; templates write the batch axis as null and an unknown axis as `-1`. -/

namespace BlockNet

/-- One axis of a shape. -/
inductive Dim where
  | size (n : Nat)
  | dynamic (d : Dynamic)
  deriving DecidableEq, Repr

/-- Element types, each holding the values of the ones before it. -/
inductive DType where
  | bool
  | int32
  | float32
  deriving DecidableEq, Repr

/-- A list of dimensions and an element type. -/
structure TensorShape where
  dims : List Dim
  dtype : DType
  deriving DecidableEq, Repr

namespace DType

/-- The written name of an element type. -/
def name : DType → String
  | .bool => "bool"
  | .int32 => "int32"
  | .float32 => "float32"

/-- All element types, narrowest first. -/
def all : List DType := [.bool, .int32, .float32]

/-- The element type of a name. -/
def ofName? (name : String) : Option DType := all.find? (·.name == name)

/-- The element type that a value names, if it names one. What cannot be a key names nothing. -/
def find (v : Value) : Outcome (Option DType) :=
  match v with
  | .text name => .ok (ofName? name)
  | v => if v.hashable then .ok none else mishap .wrongType

/-- The element type that a value must name. -/
def ofValue (v : Value) : Outcome DType := do
  match ← find v with
  | some dtype => .ok dtype
  | none => .error (.unsupportedDtype v)

/-- The place of an element type in the chain of inclusions. -/
def level : DType → Nat
  | .bool => 0
  | .int32 => 1
  | .float32 => 2

end DType

namespace Dim

/-- The batch axis. -/
def batch : Dim := .dynamic .batch

/-- An unknown axis. -/
def unknown : Dim := .dynamic .unknown

/-- Is the size of the axis open? -/
def isDynamic : Dim → Bool
  | .size _ => false
  | .dynamic _ => true

/-- The size of the axis, if it is fixed. -/
def size? : Dim → Option Nat
  | .size n => some n
  | .dynamic _ => none

/-- The axis of a written size: `-1` is an unknown axis and no other number may be negative. -/
def ofInt : Int → Outcome Dim
  | .ofNat n => .ok (.size n)
  | .negSucc 0 => .ok unknown
  | .negSucc n => .error (.negativeDimension (.negSucc n))

/-- The axis that a value stands for. -/
def ofValue : Value → Outcome Dim
  | .null => .ok batch
  | .dim d => .ok (.dynamic d)
  | .bool b => .error (.flagDimension b)
  | v => v.toInt >>= ofInt

/-- The axis as a value. -/
def toValue : Dim → Value
  | .size n => .int n
  | .dynamic d => .dim d

/-- The axis as templates write it. -/
def toTemplate : Dim → Value
  | .size n => .int n
  | .dynamic .batch => .null
  | .dynamic .unknown => .int (-1)

/-- The axis as shown to a reader. -/
def symbol : Dim → String
  | .size n => toString n
  | .dynamic .batch => "batch"
  | .dynamic .unknown => "?"

end Dim

namespace TensorShape

/-- The shape of written dimensions and a written element type. -/
def ofValues (dims : List Value) (dtype : Value) : Outcome TensorShape := do
  let dtype ← DType.ofValue dtype
  let dims ← dims.mapM Dim.ofValue
  .ok ⟨dims, dtype⟩

/-- The shape of a template: its dimensions, none if it names none, and its element type. -/
def ofTemplate (template : Value) : Outcome TensorShape := do
  let entries ← template.members
  let dims ← ((entries.get? "dimensions").getD (.tuple [])).toList
  ofValues dims ((entries.get? "dtype").getD (.text "float32"))

/-- A batch axis followed by the axes of a sample. -/
def batched (sample : List Dim) (dtype : DType) : TensorShape := ⟨.batch :: sample, dtype⟩

/-- The number of axes. -/
def rank (s : TensorShape) : Nat := s.dims.length

/-- Is some axis unknown? -/
def hasUnknown (s : TensorShape) : Bool := s.dims.any (· == Dim.unknown)

/-- Is every axis but the batch axis of fixed size? -/
def isConcrete (s : TensorShape) : Bool :=
  s.dims.all fun d => d == Dim.batch || !d.isDynamic

/-- The axes after a leading batch axis; all of them if there is none. -/
def sampleDims (s : TensorShape) : List Dim :=
  match s.dims with
  | .dynamic .batch :: rest => rest
  | dims => dims

/-- The sizes of a list of axes, if all of them are fixed. -/
def sizes? (dims : List Dim) : Option (List Nat) := dims.mapM Dim.size?

/-- The number of elements of one sample, if all its axes are fixed. -/
def sampleSize? (s : TensorShape) : Option Nat := (sizes? s.sampleDims).map volume

/-- The position that an index means in a list, counting from the end if it is negative. -/
def position? (length : Nat) (index : Int) : Option Nat :=
  let i := if index < 0 then index + length else index
  if 0 ≤ i ∧ i < length then some i.toNat else none

/-- The shape with another axis at an index, which may count from the end. -/
def setDim (s : TensorShape) (index : Int) (dim : Outcome Dim) : Outcome TensorShape := do
  let i ← orMishap .badIndex (position? s.dims.length index)
  let dim ← dim
  .ok { s with dims := s.dims.set i dim }

/-- The shape with a written axis at a written index. -/
def withDim (s : TensorShape) (index value : Value) : Outcome TensorShape := do
  let i ← orMishap .wrongType (index.number?.bind Number.integer?)
  s.setDim i (Dim.ofValue value)

/-- The shape with another size at an index. -/
def withSize (s : TensorShape) (index : Int) (size : Int) : Outcome TensorShape :=
  s.setDim index (Dim.ofInt size)

/-- The shape with another element type. -/
def withDtype (s : TensorShape) (dtype : DType) : TensorShape := { s with dtype }

/-- The shape as a template. -/
def toTemplate (s : TensorShape) : Value :=
  .dict [(.text "dimensions", .list (s.dims.map Dim.toTemplate)),
    (.text "dtype", .text s.dtype.name)]

/-- The shape as shown to a reader. -/
def describe (s : TensorShape) : String :=
  "(" ++ " × ".intercalate (s.dims.map Dim.symbol) ++ ") " ++ s.dtype.name

/-- The shape as a record of its fields. -/
def shown (s : TensorShape) : String :=
  "TensorShape(dimensions=" ++ (Value.tuple (s.dims.map Dim.toValue)).shown ++ ", dtype="
    ++ Text.quoted s.dtype.name ++ ")"

end TensorShape

end BlockNet
