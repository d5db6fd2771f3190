import BlockNet.Model.Gradient
import BlockNet.Training.Config
/-! # Moving weights downhill

A weight moves against its slope. With momentum the slopes of earlier moves count too; the
adaptive method measures each slope by running means of slopes and their squares. What a gradient
does not name stays where it is. -/

namespace BlockNet

/-- What is remembered of a weight: how often it moved, and running means of its slopes and of
their squares. -/
structure Momentum (α : Type) where
  moves : Nat
  mean : Tensor α
  square : Tensor α

namespace Momentum

variable {α : Type} [Scalar α]

/-- Nothing remembered yet of a weight of given axes. -/
def none (dims : List Nat) : Momentum α := ⟨0, Tensor.filled dims 0, Tensor.filled dims 0⟩

/-- Two tensors of the same axes, entry by entry. -/
def combine (f : α → α → α) (s t : Tensor α) : Tensor α :=
  Tensor.ofFn s.dims fun i => f (s.entry i) (t.entry i)

/-- A number to a power. -/
def power (x : α) (n : Nat) : α := n.fold (fun _ _ y => y * x) Scalar.one

/-- A part of a thousand. -/
def thousandths (n : Int) : α := Scalar.ofInt n / Scalar.ofInt 1000

/-- The memory after another slope whose effect fades by a factor; with a factor of zero no
earlier slope counts, whatever it was. -/
def fading (m : Momentum α) (keep : α) (g : Tensor α) : Momentum α :=
  let mean := if m.moves = 0 || Scalar.same keep 0 then g
    else combine (fun v g => keep * v + g) m.mean g
  { m with moves := m.moves + 1, mean }

/-- The memory after another slope, as running means. -/
def averaging (m : Momentum α) (g : Tensor α) : Momentum α :=
  let rest := Scalar.one - thousandths 999
  { moves := m.moves + 1
    mean := combine (fun a g => a + (Scalar.one - thousandths 900) * (g - a)) m.mean g
    square := combine (fun a g => thousandths 999 * a + rest * (g * g)) m.square g }

/-- The move of a weight by running means. Early means lean towards zero, which the powers make up
for. -/
def adaptiveMove (m : Momentum α) (rate : α) (i : Nat) : α :=
  let size := rate / (Scalar.one - power (thousandths 900) m.moves)
  let spread := Scalar.sqrt (Scalar.one - power (thousandths 999) m.moves)
  let floor := Scalar.one / Scalar.ofInt 100000000
  size * (m.mean.entry i / (Scalar.sqrt (m.square.entry i) / spread + floor))

end Momentum

/-- How weights are moved, and what is remembered of them. `keep` is the factor by which the effect of
earlier slopes fades. -/
structure Optimizer (α : Type) where
  method : Method
  keep : Number
  memory : List (String × Momentum α)

namespace Optimizer

variable {α : Type} [Scalar α]

/-- The memory of a weight. -/
def momentumOf (o : Optimizer α) (key : String) (dims : List Nat) : Momentum α :=
  ((o.memory.find? (·.1 == key)).map (·.2)).getD (Momentum.none dims)

/-- The factor by which the effect of earlier slopes fades. It is looked at only if there are any. -/
def fade (o : Optimizer α) : Outcome α :=
  match o.method with
  | .sgd => if o.memory.isEmpty then .ok 0 else o.keep.toFactor.map Scalar.ofFloat
  | .adam => .ok 0

/-- The rate of a move. A plain move multiplies slopes by the rate with its sign turned. -/
def pace (o : Optimizer α) (rate : Number) : Outcome α :=
  match o.method with
  | .sgd => do .ok (-Scalar.ofFloat (← (← (Number.whole 0).minus rate).toFactor))
  | .adam => rate.toFloat.map Scalar.ofFloat

/-- The memory of a weight after another slope. -/
def learn (o : Optimizer α) (fade : α) (m : Momentum α) (g : Tensor α) : Momentum α :=
  match o.method with
  | .adam => m.averaging g
  | .sgd => m.fading fade g

/-- A weight after it has moved. -/
def moved (o : Optimizer α) (rate : α) (m : Momentum α) (w : Tensor α) : Tensor α :=
  match o.method with
  | .adam => Tensor.ofFn w.dims fun i => w.entry i - m.adaptiveMove rate i
  | .sgd => Tensor.ofFn w.dims fun i => w.entry i - rate * m.mean.entry i

/-- Moves the weights of a model against a gradient. -/
def step (o : Optimizer α) (rate : Number) (g : Gradient α) (m : Model α) :
    Outcome (Optimizer α × Model α) := do
  let fade ← o.fade
  let rate ← o.pace rate
  let memory := g.map fun (key, slope) => (key, o.learn fade (o.momentumOf key slope.dims) slope)
  let kept := o.memory.filter fun e => !memory.any (·.1 == e.1)
  let model := m.mapWeights fun key w =>
    match memory.find? (·.1 == key) with
    | some (_, memory) => { w with tensor := o.moved rate memory w.tensor }
    | none => w
  .ok ({ o with memory := memory ++ kept }, model)

end Optimizer

end BlockNet
