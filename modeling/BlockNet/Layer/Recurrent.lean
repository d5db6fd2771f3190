import BlockNet.Layer.Basic
/-! # Recurrent layers

A cell goes through the steps of a sequence and carries two vectors along. At each step four
gates are computed from the features of the step and the vector that the cell shows: what to take
in, what to keep, the candidate, and what to show. -/

namespace BlockNet.Recurrent

/-- The name of the layer in faults. -/
def kind : String := "LSTM"

/-- Does the layer give its output at every step, or only at the last one? -/
def keepsSteps (params : Entries) : Bool := params.flag "return_sequences" false

/-- A vector of `units` numbers, at every step if the settings ask for it. -/
def outputShape (params : Entries) (inputs : List TensorShape) : Outcome TensorShape := do
  let sequence ← (← firstOf inputs).sequenceSize kind
  let units ← params.integer "units"
  if keepsSteps params then TensorShape.ofSample [sequence.steps, units]
  else TensorShape.ofSample [units]

variable {α : Type} [Scalar α]

/-- Two drawn weights with a row per gate and unit, and a bias of zero. -/
def build (params : Entries) (inputs : List TensorShape) : Draws (List (Weight α)) := do
  let sequence ← (← firstOf inputs : TensorShape).sequenceSize kind
  let units ← params.integer "units"
  let features : Int := sequence.features
  let fromInput ← drawnWeight "w_ih" [4 * units, features] features (4 * units)
  let fromHidden ← drawnWeight "w_hh" [4 * units, units] units (4 * units)
  let bias ← constantWeight "bias" [4 * units] (.real 0)
  return [fromInput, fromHidden, bias]

/-- The weights of a cell: `input` and `hidden` have a row per gate and unit. -/
structure Cell (α : Type) where
  units : Nat
  features : Nat
  input : Tensor α
  hidden : Tensor α
  bias : Tensor α

/-- What a cell carries from step to step: the vector it shows and the one it keeps. -/
structure State (α : Type) where
  shown : Array α
  kept : Array α

/-- The four gates of every unit. -/
structure Gates (α : Type) where
  taken : Array α
  held : Array α
  candidate : Array α
  opened : Array α

namespace Cell

/-- The state before the first step. -/
def start (c : Cell α) : State α := ⟨Array.replicate c.units 0, Array.replicate c.units 0⟩

/-- The sum behind a gate. -/
def drive (c : Cell α) (x : Nat → α) (s : State α) (j : Nat) : α :=
  Scalar.sum c.features (fun k => x k * c.input.entry (j * c.features + k))
    + Scalar.sum c.units (fun k => s.shown.getD k 0 * c.hidden.entry (j * c.units + k))
    + c.bias.entry j

/-- The gates at a step, in the order of their rows. -/
def gates (c : Cell α) (x : Nat → α) (s : State α) : Gates α :=
  let z := fun block j => c.drive x s (block * c.units + j)
  { taken := Tensor.row c.units fun j => Scalar.sigmoid (z 0 j)
    held := Tensor.row c.units fun j => Scalar.sigmoid (z 1 j)
    candidate := Tensor.row c.units fun j => Scalar.tanh (z 2 j)
    opened := Tensor.row c.units fun j => Scalar.sigmoid (z 3 j) }

/-- The state after a step. -/
def next (c : Cell α) (x : Nat → α) (s : State α) : State α :=
  let g := c.gates x s
  let kept := Tensor.row c.units fun j =>
    g.held.getD j 0 * s.kept.getD j 0 + g.taken.getD j 0 * g.candidate.getD j 0
  ⟨Tensor.row c.units fun j => g.opened.getD j 0 * Scalar.tanh (kept.getD j 0), kept⟩

/-- The states after each of a number of steps. -/
def states (c : Cell α) (steps : Nat) (x : Nat → Nat → α) : Array (State α) :=
  steps.fold (fun t _ past => past.push (c.next (x t) (past.back?.getD c.start))) #[]

end Cell

/-- The cell of a layer. -/
def cellOf (layer : Layer α) (features : Nat) : Outcome (Cell α) := do
  let input ← layer.weight "w_ih"
  let hidden ← layer.weight "w_hh"
  let bias ← layer.weight "bias"
  .ok ⟨hidden.dims.getD 1 0, features, input, hidden, bias⟩

/-- The vectors a cell shows: at every step of every sequence, or at the last step. -/
def run (c : Cell α) (batch steps : Nat) (x : Tensor α) (everyStep : Bool) : Tensor α :=
  let past := fun b => c.states steps fun t k => x.entry ((b * steps + t) * c.features + k)
  if everyStep then
    Tensor.ofRows [batch, steps, c.units] (steps * c.units) fun b =>
      (past b).foldl (fun row s => row ++ s.shown) #[]
  else
    Tensor.ofRows [batch, c.units] c.units fun b => ((past b).back?.getD c.start).shown

/-- The layer's result. Without any step there is no sequence to give. -/
def forward (layer : Layer α) (inputs : List (Signal α)) : Outcome (Tensor α) := do
  let sequence ← (← firstOf layer.inputShapes).sequenceSize kind
  let units ← layer.params.integer "units"
  let input ← firstOf inputs
  let batch ← input.batch
  let x ← input.toReal.reshape [batch, sequence.steps, sequence.features]
  if units < 0 then mishap .badTensor
  else
    let c ← cellOf layer sequence.features
    let everyStep := keepsSteps layer.params
    if everyStep ∧ sequence.steps = 0 then mishap .badTensor
    else .ok (run c batch sequence.steps x everyStep)

/-- The slopes at the state before a step and at the sums behind its gates. -/
structure StepSlopes (α : Type) where
  shown : Array α
  kept : Array α
  drives : Array α

/-- Goes one step back: from the slopes at the state after a step, those before it. -/
def stepBack (c : Cell α) (x : Nat → α) (s after : State α) (shown kept : Array α) :
    StepSlopes α :=
  let g := c.gates x s
  let one : α := Scalar.one
  let val := fun (a : Array α) j => a.getD j 0
  let bent := fun j => Scalar.tanh (val after.kept j)
  let atKept := Tensor.row c.units fun j =>
    val kept j + val shown j * val g.opened j * (one - Scalar.square (bent j))
  let drive := fun block j =>
    if block = 0 then
      val atKept j * val g.candidate j * val g.taken j * (one - val g.taken j)
    else if block = 1 then val atKept j * val s.kept j * val g.held j * (one - val g.held j)
    else if block = 2 then
      val atKept j * val g.taken j * (one - Scalar.square (val g.candidate j))
    else val shown j * bent j * val g.opened j * (one - val g.opened j)
  let drives := Tensor.row (4 * c.units) fun n => drive (n / c.units) (n % c.units)
  { shown := Tensor.row c.units fun k =>
      Scalar.sum (4 * c.units) fun n => val drives n * c.hidden.entry (n * c.units + k)
    kept := Tensor.row c.units fun j => val atKept j * val g.held j
    drives }

/-- The slopes at the sums behind the gates, at every step of one sequence. -/
def driveSlopes (c : Cell α) (steps : Nat) (x : Nat → Nat → α) (past : Array (State α))
    (slope : Nat → Nat → α) : Array (Array α) :=
  let zeros : Array α := Array.replicate c.units 0
  let back := steps.fold
    (fun n _ (acc : StepSlopes α × List (Array α)) =>
      let t := steps - 1 - n
      let before := if t = 0 then c.start else past.getD (t - 1) c.start
      let shown := Tensor.row c.units fun j => acc.1.shown.getD j 0 + slope t j
      let s := stepBack c (x t) before (past.getD t c.start) shown acc.1.kept
      (s, s.drives :: acc.2))
    (⟨zeros, zeros, #[]⟩, [])
  back.2.toArray

/-- The slopes at input and weights, from the slopes `g` at the result. -/
def slopes (layer : Layer α) (x g : Tensor α) : Slopes α :=
  let sequence := match (firstOf layer.inputShapes).bind (·.sequenceSize kind) with
    | .ok sequence => sequence
    | .error _ => ⟨0, 0⟩
  match cellOf layer sequence.features with
  | .error _ => { inputs := [x], weights := [] }
  | .ok c =>
      let steps := sequence.steps
      let batch := g.dims.headD 0
      let val := fun b t k => x.entry ((b * steps + t) * c.features + k)
      let past := Array.ofFn fun b : Fin batch => c.states steps (val b)
      let slope := fun b t j =>
        if keepsSteps layer.params then g.entry ((b * steps + t) * c.units + j)
        else if t + 1 = steps then g.entry (b * c.units + j) else 0
      let drives := Array.ofFn fun b : Fin batch =>
        driveSlopes c steps (val b) (past.getD b #[]) (slope b)
      let drive := fun b t n => ((drives.getD b #[]).getD t #[]).getD n 0
      let before := fun b t => if t = 0 then c.start else (past.getD b #[]).getD (t - 1) c.start
      let overSteps := fun f : Nat → Nat → α =>
        Scalar.sum batch fun b => Scalar.sum steps fun t => f b t
      { inputs := [Tensor.ofFn x.dims fun i =>
          let k := i % c.features
          let t := i / c.features % steps
          let b := i / c.features / steps
          Scalar.sum (4 * c.units) fun n => drive b t n * c.input.entry (n * c.features + k)]
        weights := layer.weights.map fun w =>
          if w.name = "w_ih" then Tensor.ofFn w.tensor.dims fun i =>
            overSteps fun b t => drive b t (i / c.features) * val b t (i % c.features)
          else if w.name = "w_hh" then Tensor.ofFn w.tensor.dims fun i =>
            overSteps fun b t =>
              drive b t (i / c.units) * (before b t).shown.getD (i % c.units) 0
          else Tensor.ofFn w.tensor.dims fun n => overSteps fun b t => drive b t n }

end BlockNet.Recurrent
