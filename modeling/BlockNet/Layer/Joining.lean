import BlockNet.Layer.Basic
/-! # Joining several inputs

Inputs are summed entry by entry, or set side by side along an axis. -/

namespace BlockNet

namespace Addition

/-- The name of the layer in faults. -/
def kind : String := "Add"

/-- The sizes with the last one replaced. -/
def withLast (sizes : List Nat) (last : Nat) : List Nat :=
  if sizes.isEmpty then [] else sizes.dropLast ++ [last]

/-- The sizes of a sum so far with the sizes of another summand laid over them. -/
def joined (first : TensorShape) (last : Nat) (sizes : List Nat) (other : TensorShape) :
    Outcome (List Nat) := do
  let dims ← other.fixedSizes kind other.sampleDims "sample axes"
  match Tensor.broadcast? sizes (withLast dims last) with
  | some sizes => .ok sizes
  | none => .error (.unresolvedShape kind (s!"cannot add {other.describe} to {first.describe}"))

/-- The later inputs are laid over the first one, their last axis cut or padded to its size. -/
def outputShape (inputs : List TensorShape) : Outcome TensorShape := do
  let first ← firstOf inputs
  let last ← first.featureSize kind
  let sizes ← first.fixedSizes kind first.sampleDims "sample axes"
  let sizes ← inputs.tail.foldlM (joined first last) sizes
  TensorShape.ofSample (sizes.map fun n : Nat => (n : Int))

variable {α : Type} [Scalar α]

/-- The tensor with its last axis cut, or padded with zeros, to a size. -/
def aligned (t : Tensor α) (last : Nat) : Tensor α :=
  if t.width = last then t
  else Tensor.ofFn (t.dims.dropLast ++ [last]) fun i =>
    if i % last < t.width then t.entry (i / last * t.width + i % last) else 0

/-- One more summand; neither may be without axes. -/
def plus (last : Nat) (sum : Tensor α) (input : Signal α) : Outcome (Tensor α) :=
  if input.dims.isEmpty then mishap .badIndex
  else Tensor.zipWith (· + ·) sum (aligned input.toReal last)

/-- The layer's result. -/
def forward (inputs : List (Signal α)) : Outcome (Tensor α) := do
  let first := (← firstOf inputs).toReal
  if first.dims.isEmpty then mishap .badIndex
  else inputs.tail.foldlM (plus first.width) first

/-- The slopes at the inputs, from the slopes `g` at the sum. -/
def slopes (inputs : List (Tensor α)) (g : Tensor α) : Slopes α :=
  let last := (inputs.head?.map Tensor.width).getD 1
  let at? := fun t : Tensor α =>
    let wide := t.dims.dropLast ++ [last]
    if t.width = last then g.reduced t.dims
    else
      let s := g.reduced wide
      Tensor.ofFn t.dims fun i =>
        if i % t.width < last then s.entry (i / t.width * last + i % t.width) else 0
  { inputs := inputs.map at?, weights := [] }

end Addition

namespace Concatenation

/-- The name of the layer in faults. -/
def kind : String := "Concatenate"

/-- The size that an input adds along an axis; on all other axes but the first it must agree with
the first input. -/
def share (first : TensorShape) (axis : Nat) (s : TensorShape) : Outcome Nat :=
  if s.rank ≠ first.rank then
    .error (.unresolvedShape kind (s!"rank mismatch {s.describe} vs {first.describe}"))
  else
    let differs := fun i => 0 < i && i != axis && s.dims[i]? != first.dims[i]?
    match (List.range first.rank).find? differs with
    | some i =>
        .error (.unresolvedShape kind (s!"axis {i} differs: {s.describe} vs {first.describe}"))
    | none => do
        .ok (combined (← s.fixedSizes kind (s.dims[axis]?).toList "concat axis"))

/-- The first shape with the sizes along the setting `axis` added up; the axis may count from the
end and may not be the first. -/
def outputShape (params : Entries) (inputs : List TensorShape) : Outcome TensorShape := do
  let first ← firstOf inputs
  let written ← params.require "axis"
  let axis ← written.toInt
  match TensorShape.position? first.rank axis with
  | none | some 0 =>
      .error (.unresolvedShape kind
        ("axis " ++ written.plain ++ " out of range for " ++ first.describe))
  | some axis =>
      let shares ← inputs.mapM (share first axis)
      .ok ((← first.withSize axis (combined shares)).withDtype .float32)

variable {α : Type} [Scalar α]

/-- Is it a tensor of a single axis without entries? Beside other tensors it counts for nothing,
whatever their axes. -/
def isVacant (t : Tensor α) : Bool := t.dims == [0]

/-- The entries of a tensor that stand together for one combination of the axes before `axis`. -/
def chunk (axis : Nat) (t : Tensor α) : Nat :=
  if isVacant t then 0 else volume (t.dims.drop axis)

/-- Do two tensors agree on every axis but one? -/
def fits (axis : Nat) (s t : Tensor α) : Bool := s.dims.eraseIdx axis == t.dims.eraseIdx axis

/-- Tensors side by side along an axis. -/
def sideBySide (axis : Nat) (first : Tensor α) (tensors : List (Tensor α)) : Tensor α :=
  let dims := first.dims.set axis (combined (tensors.map fun t => t.dims.getD axis 0))
  Tensor.ofRows dims (combined (tensors.map (chunk axis))) fun o =>
    (tensors.map fun t =>
      Tensor.row (chunk axis t) fun k => t.entry (o * chunk axis t + k)).foldl (· ++ ·) #[]

/-- Does a number fit into a word? -/
def isWord (n : Int) : Bool := (Int64.ofInt n).toInt == n

/-- The layer's result. All inputs must have axes, and the setting `axis` must name one of them or
at least fit into a word. -/
def forward (layer : Layer α) (inputs : List (Signal α)) : Outcome (Tensor α) := do
  let tensors := inputs.map Signal.toReal
  let axis ← layer.params.integer "axis"
  if tensors.isEmpty ∨ tensors.any (·.dims.isEmpty) then mishap .badTensor
  else
    match tensors.filter fun t => !isVacant t with
    | [] => if isWord axis then .ok (Tensor.filled [0] 0) else mishap .badTensor
    | first :: rest =>
        match TensorShape.position? first.rank axis with
        | none => mishap (if isWord axis then .badIndex else .badTensor)
        | some axis =>
            if rest.all (fun t => t.rank == first.rank && fits axis first t) then
              .ok (sideBySide axis first (first :: rest))
            else mishap .badTensor

/-- The slopes at tensors side by side, from the slopes `g` at the whole; `before` counts the
entries of a row that come before them. -/
def slopesFrom (axis whole : Nat) (g : Tensor α) : Nat → List (Tensor α) → List (Tensor α)
  | _, [] => []
  | before, t :: rest =>
      let width := chunk axis t
      Tensor.ofFn t.dims (fun i => g.entry (i / width * whole + before + i % width))
        :: slopesFrom axis whole g (before + width) rest

/-- The slopes at the inputs, from the slopes `g` at the result. -/
def slopes (layer : Layer α) (inputs : List (Tensor α)) (g : Tensor α) : Slopes α :=
  let axis := match layer.params.integer "axis" with
    | .ok axis => (TensorShape.position? g.rank axis).getD 0
    | .error _ => 0
  { inputs := slopesFrom axis (chunk axis g) g 0 inputs, weights := [] }

end Concatenation

end BlockNet
