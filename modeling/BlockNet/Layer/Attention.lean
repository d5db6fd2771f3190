import BlockNet.Layer.Affine
import BlockNet.Layer.Activation
import BlockNet.Tensor.Generator
/-! # Attention

Queries, keys and values are affine maps of up to three sequences. Every head owns a run of their
features: it weighs the values by the shares of the products of a query with all keys. The heads
side by side go through one more affine map. -/

namespace BlockNet.Attention

/-- The name of the layer in faults. -/
def kind : String := "MultiHeadAttention"

/-- The number of heads: the wanted one if it divides the size, else their greatest common
divisor. -/
def heads (size wanted : Int) : Outcome Int :=
  if wanted = 0 then mishap .zeroDivisor
  else .ok (if size % wanted = 0 then wanted else Int.gcd size wanted)

/-- Is a double a whole multiple of another one, which is not zero? -/
def isMultiple (x y : Float) : Bool :=
  match (Number.real x).fraction?, (Number.real y).fraction? with
  | some (p, q), some (r, s) => p * s % (r * q) == 0
  | some (p, _), none => p == 0 && !y.isNaN
  | none, _ => false

/-- The number of heads for numbers of any kind. Only whole numbers have a common divisor. -/
def headsOfValues (size wanted : Value) : Outcome Value := do
  let a ← orMishap .wrongType size.number?
  let b ← orMishap .wrongType wanted.number?
  match a.integer?, b.integer? with
  | some m, some n => do
      let count ← heads m n
      .ok (if count = n then wanted else .int count)
  | _, _ => do
      let (x, y) := (← a.toFloat, ← b.toFloat)
      if y == 0 then mishap .zeroDivisor
      else if isMultiple x y then .ok wanted
      else mishap .wrongType

/-- Queries, keys and values: missing keys are the queries, missing values the keys. -/
def streams {β : Type} (inputs : List β) : Outcome (List β) :=
  match inputs with
  | [] => mishap .badIndex
  | [q] => .ok [q, q, q]
  | [q, k] => .ok [q, k, k]
  | q :: k :: v :: _ => .ok [q, k, v]

/-- As many steps as the queries have, of the size that the setting `dim` names. -/
def outputShape (params : Entries) (inputs : List TensorShape) : Outcome TensorShape := do
  let sequence ← (← firstOf inputs).sequenceSize kind
  let size ← params.integer "dim"
  TensorShape.ofSample [sequence.steps, size]

variable {α : Type} [Scalar α]

/-- A drawn weight and a bias of zero for one of the streams. -/
def buildStream (size : Int) (stream : String × TensorShape) : Draws (List (Weight α)) := do
  let sequence ← stream.2.sequenceSize kind
  let features : Int := sequence.features
  let w ← drawnWeight ("w_" ++ stream.1) [size, features] features size
  let b ← constantWeight ("b_" ++ stream.1) [size] (.real 0)
  return [w, b]

/-- The names of the streams. -/
def streamNames : List String := ["q", "k", "v"]

/-- Weights for queries, keys, values and the result. -/
def build (params : Entries) (inputs : List TensorShape) : Draws (List (Weight α)) := do
  let size ← params.integer "dim"
  let shapes ← streams inputs
  let inner ← (streamNames.zip shapes).mapM (buildStream size)
  let w ← drawnWeight "w_o" [size, size] size size
  let b ← constantWeight "b_o" [size] (.real 0)
  return inner.flatten ++ [w, b]

/-- An affine map whose weight has a row per result. -/
def affine (x : Tensor α) (dims : List Nat) (w b : Tensor α) : Tensor α :=
  let inputs := w.dims.getD 1 0
  Affine.apply x dims inputs (w.dims.getD 0 0) (fun k j => w.entry (j * inputs + k)) b.entry

/-- One of the streams as a batch of sequences. -/
def sequences (input : Signal α) (shape : TensorShape) : Outcome (Tensor α) := do
  let sequence ← shape.sequenceSize kind
  let batch ← input.batch
  input.toReal.reshape [batch, sequence.steps, sequence.features]

/-- A stream after its affine map. -/
def project (layer : Layer α) (name : String) (input : Signal α) (shape : TensorShape) :
    Outcome (Tensor α) := do
  let x ← sequences input shape
  let w ← layer.weight ("w_" ++ name)
  let b ← layer.weight ("b_" ++ name)
  .ok (affine x (x.dims.dropLast ++ [w.dims.getD 0 0]) w b)

/-- The sizes that attention goes over. -/
structure Extent where
  batch : Nat
  queries : Nat
  keys : Nat
  heads : Nat
  width : Nat

namespace Extent

/-- The number of features. -/
def size (e : Extent) : Nat := e.heads * e.width

/-- The position of the first feature of a head at a step of a sequence; a single sequence stands
for any. -/
def place (e : Extent) (t : Tensor α) (b step head : Nat) : Nat :=
  let b := if t.dims.headD 0 = 1 then 0 else b
  (b * t.dims.getD 1 0 + step) * e.size + head * e.width

/-- The product of the features of two heads, from the positions of their first ones. -/
def product (e : Extent) (q k : Tensor α) (i j : Nat) : α :=
  Scalar.sum e.width fun n => q.entry (i + n) * k.entry (j + n)

/-- The shares that a query gives to the keys, one row per sequence, head and query. -/
def sharesOf (e : Extent) (q k : Tensor α) (n : Nat) : Array α :=
  let step := n % e.queries
  let head := n / e.queries % e.heads
  let b := n / e.queries / e.heads
  let query := e.place q b step head
  let scale : α := Scalar.sqrt (Scalar.ofInt e.width)
  Activation.shares e.keys fun u => e.product q k query (e.place k b u head) / scale

/-- All shares, worked out once. -/
def allShares (e : Extent) (q k : Tensor α) : Array (Array α) :=
  Array.ofFn fun n : Fin (e.batch * e.heads * e.queries) => e.sharesOf q k n

/-- The row of shares of a query of a head. -/
def rowOf (e : Extent) (b head step : Nat) : Nat := (b * e.heads + head) * e.queries + step

end Extent

/-- What is kept of the shares: all of them, or those that draws decide on, which then grow by
the factor that keeps the mean. -/
inductive Mask (α : Type) where
  | whole
  | drawn (kept : Array Bool) (factor : α)

/-- A share under a mask, by its row and its place in the row. -/
def Mask.thin (m : Mask α) (e : Extent) (row u : Nat) (share : α) : α :=
  match m with
  | .whole => share
  | .drawn kept factor => if kept.getD (row * e.keys + u) false then share * factor else share * 0

/-- The values weighed by shares, the heads side by side. -/
def weighed (e : Extent) (mask : Mask α) (shares : Array (Array α)) (v : Tensor α) :
    Tensor α :=
  Tensor.ofFn [e.batch, e.queries, e.size] fun n =>
    let head := n % e.size / e.width
    let step := n / e.size % e.queries
    let b := n / e.size / e.queries
    let row := e.rowOf b head step
    let given := shares.getD row #[]
    let first := e.place v b 0 head + n % e.size % e.width
    Scalar.sum e.keys fun u =>
      mask.thin e row u (given.getD u 0) * v.entry (first + u * e.size)

/-- The extent of queries, keys and values. Their batches must fit the one of the queries, and
every key needs a value. -/
def extentOf (q k v : Tensor α) (heads width : Nat) : Outcome Extent :=
  let batch := q.dims.headD 0
  let fits := fun t : Tensor α => t.dims.headD 0 = batch ∨ t.dims.headD 0 = 1
  if fits k ∧ fits v ∧ k.dims.getD 1 0 = v.dims.getD 1 0 then
    .ok ⟨batch, q.dims.getD 1 0, k.dims.getD 1 0, heads, width⟩
  else mishap .badTensor

/-- The rate at which shares are dropped. -/
def rateOf (params : Entries) (training : Bool) : Outcome α :=
  if training then do
    .ok (Scalar.ofFloat (← ((params.get? "dropout").getD (.real 0)).toFloat))
  else .ok 0

/-- Are shares dropped at a rate? -/
def isThinned (rate : α) : Bool := Scalar.less 0 rate

/-- The seed of the draws that decide on shares, which is itself one draw. -/
def maskSeed (g : Generator) : UInt32 := UInt32.ofNat (g.integerAt 0 0x7fffffff 0)

/-- The mask at a rate, which must not be below zero or above one. A rate of one keeps nothing;
otherwise every share is kept without a stream that belongs to the pass. -/
def maskOf (e : Extent) (rate : α) (streamed : Bool) (start : Generator) : Outcome (Mask α) :=
  if Scalar.same rate 0 then .ok .whole
  else if isThinned rate && Scalar.atMost rate Scalar.one then
    if Scalar.same rate Scalar.one then .ok (.drawn #[] Scalar.one)
    else if !streamed then .ok .whole
    else
      let share := Scalar.one - rate
      let scale : α := Scalar.ofInt Twister.range
      let draws := Twister.draws (maskSeed start) (e.batch * e.heads * e.queries * e.keys)
      .ok (.drawn (draws.map fun n : Nat => Scalar.less (Scalar.ofInt n / scale) share)
        (Scalar.one / share))
  else mishap .badTensor

/-- The layer's result. -/
def forward (layer : Layer α) (inputs : List (Signal α)) (mode : PassMode) :
    Draws (Tensor α) := do
  let size ← layer.params.integer "dim"
  let count ← heads size (← layer.params.integer "heads")
  let shapes ← streams layer.inputShapes
  let signals ← streams inputs
  let projected ← (streamNames.zip (signals.zip shapes)).mapM fun (name, input, shape) =>
    (project layer name input shape : Outcome (Tensor α))
  match projected with
  | [q, k, v] =>
      if count < 0 then mishap (α := Tensor α) .badTensor
      else
        let rate ← (rateOf layer.params mode.training : Outcome α)
        let e ← extentOf q k v count.toNat (size / count).toNat
        let start ← get
        if isThinned rate && mode.streamed then set (start.skip 1)
        let mask ← (maskOf e rate mode.streamed start : Outcome (Mask α))
        let context := weighed e mask (e.allShares q k) v
        let w ← layer.weight "w_o"
        let b ← layer.weight "b_o"
        return affine context [e.batch, e.queries, e.size] w b
  | _ => mishap (α := Tensor α) .badTensor

/-- The slopes at queries, keys and values, from the slopes `g` at the weighed values. -/
def streamSlopes (e : Extent) (mask : Mask α) (q k v g : Tensor α) :
    Tensor α × Tensor α × Tensor α :=
  let shares := e.allShares q k
  let scale : α := Scalar.sqrt (Scalar.ofInt e.width)
  let rows := e.batch * e.heads * e.queries
  let parts := fun row => (row / e.queries / e.heads, row / e.queries % e.heads, row % e.queries)
  let start := fun b step head => (b * e.queries + step) * e.size + head * e.width
  let scores := Array.ofFn fun row : Fin rows =>
    let (b, head, step) := parts row
    let given := shares.getD row #[]
    let slope := Tensor.row e.keys fun u =>
      mask.thin e row u (e.product g v (start b step head) (e.place v b u head))
    let level := Scalar.sum e.keys fun u => slope.getD u 0 * given.getD u 0
    Tensor.row e.keys fun u => given.getD u 0 * (slope.getD u 0 - level) / scale
  let score := fun row u => (scores.getD row #[]).getD u 0
  let feature := fun n => (n % e.size / e.width, n % e.size % e.width)
  let batches := fun (t : Tensor α) b (value : Nat → α) =>
    if t.dims.headD 0 = 1 then Scalar.sum e.batch value else value b
  let overQueries := fun (t : Tensor α) (value : Nat → Nat → Nat → Nat → Nat → α) =>
    Tensor.ofFn t.dims fun n =>
      let (head, i) := feature n
      let u := n / e.size % e.keys
      batches t (n / e.size / e.keys) fun b =>
        Scalar.sum e.queries fun step => value b head step u i
  (Tensor.ofFn q.dims fun n =>
      let (head, i) := feature n
      let step := n / e.size % e.queries
      let b := n / e.size / e.queries
      Scalar.sum e.keys fun u => score (e.rowOf b head step) u * k.entry (e.place k b u head + i),
    overQueries k fun b head step u i =>
      score (e.rowOf b head step) u * q.entry (e.place q b step head + i),
    overQueries v fun b head step u i =>
      let row := e.rowOf b head step
      mask.thin e row u ((shares.getD row #[]).getD u 0) * g.entry (start b step head + i))

/-- The slopes before an affine map whose weight has a row per result: at the rows, the weight
and the bias. -/
def affineSlopes (x g w : Tensor α) : Tensor α × Tensor α × Tensor α :=
  let outputs := w.dims.getD 0 0
  let inputs := w.dims.getD 1 0
  let rows := volume g.dims.dropLast
  (Affine.inputSlopes g x.dims inputs outputs fun k j => w.entry (j * inputs + k),
    Tensor.ofFn w.dims fun n =>
      Affine.weightSlope x g rows inputs outputs (n % inputs) (n / inputs),
    Affine.biasSlopes g rows outputs)

/-- The sum of two tensors of the same axes. -/
def plus (s t : Tensor α) : Tensor α := Tensor.ofFn s.dims fun i => s.entry i + t.entry i

/-- The slopes at inputs and weights, from the slopes `g` at the result and the stream before the
layer drew from it. -/
def slopes (layer : Layer α) (inputs : List (Tensor α)) (mode : PassMode) (start : Generator)
    (g : Tensor α) : Outcome (Slopes α) := do
  let size ← layer.params.integer "dim"
  let count ← heads size (← layer.params.integer "heads")
  let shapes ← streams layer.inputShapes
  let signals ← streams (inputs.map Signal.real)
  let xs ← (signals.zip shapes).mapM fun (input, shape) => sequences input shape
  let projected ← (streamNames.zip (signals.zip shapes)).mapM fun (name, input, shape) =>
    project layer name input shape
  match xs, projected with
  | [xq, xk, xv], [q, k, v] =>
      let rate ← rateOf layer.params mode.training
      let e ← extentOf q k v count.toNat (size / count).toNat
      let mask ← maskOf e rate mode.streamed start
      let context := weighed e mask (e.allShares q k) v
      let (gContext, gW, gB) := affineSlopes context g (← layer.weight "w_o")
      let (gQ, gK, gV) := streamSlopes e mask q k v gContext
      let (iQ, wQ, bQ) := affineSlopes xq gQ (← layer.weight "w_q")
      let (iK, wK, bK) := affineSlopes xk gK (← layer.weight "w_k")
      let (iV, wV, bV) := affineSlopes xv gV (← layer.weight "w_v")
      let atInputs := match inputs with
        | [_] => [plus iQ (plus iK iV)]
        | [_, _] => [iQ, plus iK iV]
        | _ => [iQ, iK, iV]
      .ok { inputs := atInputs, weights := [wQ, bQ, wK, bK, wV, bV, gW, gB] }
  | _, _ => mishap .badTensor

end BlockNet.Attention
