import BlockNet.Layer.Basic
/-! # Activations -/

namespace BlockNet

/-- The function that a layer applies to its result. -/
inductive Activation where
  | relu
  | sigmoid
  | tanh
  | softmax
  | linear
  deriving DecidableEq, Repr

namespace Activation

/-- The written name of an activation. -/
def name : Activation → String
  | .relu => "relu"
  | .sigmoid => "sigmoid"
  | .tanh => "tanh"
  | .softmax => "softmax"
  | .linear => "linear"

/-- All activations. -/
def all : List Activation := [.relu, .sigmoid, .tanh, .softmax, .linear]

/-- The activation that a value names. -/
def ofValue (v : Value) : Outcome Activation :=
  match v with
  | .text s =>
      match all.find? (·.name == s) with
      | some a => .ok a
      | none => .error (.unsupportedActivation v)
  | _ => .error (.unsupportedActivation v)

variable {α : Type} [Scalar α]

/-- Zero for what is below zero. -/
def rectified (x : α) : α := if Scalar.less x 0 then 0 else x

/-- The shares of the exponentials of `n` numbers. The largest number is taken off first, which
changes no share and keeps the exponentials small. -/
def shares (n : Nat) (f : Nat → α) : Array α :=
  let values := Tensor.row n f
  let top := Scalar.largest (n - 1) fun k => values.getD k 0
  let exps := values.map fun x => Scalar.exp (x - top)
  let total := Scalar.sum n fun k => exps.getD k 0
  exps.map (· / total)

/-- The shares along the last axis, which may not be empty. -/
def shareRows (t : Tensor α) : Outcome (Tensor α) :=
  if t.width = 0 then mishap .badIndex
  else .ok (Tensor.ofRows t.dims t.width fun r =>
    shares t.width fun k => t.entry (r * t.width + k))

/-- The activation of every entry, of every row for `softmax`. -/
def apply (a : Activation) (t : Tensor α) : Outcome (Tensor α) :=
  match a with
  | .relu => .ok (t.map rectified)
  | .sigmoid => .ok (t.map Scalar.sigmoid)
  | .tanh => .ok (t.map Scalar.tanh)
  | .softmax => shareRows t
  | .linear => .ok t

/-- The activation of a signal. Whole numbers stay whole where nothing has to be divided, and truth
values are neither rectified nor shared out. -/
def applySignal (a : Activation) (s : Signal α) : Outcome (Signal α) :=
  match a, s with
  | .linear, s => .ok s
  | .relu, .whole t => .ok (.whole (t.map (max 0)))
  | .relu, .truth _ => mishap .badTensor
  | .softmax, .truth t => if t.width = 0 then mishap .badIndex else mishap .badTensor
  | a, s => (a.apply s.toReal).map .real

/-- The activation that settings name, applied. -/
def applyNamed (params : Entries) (t : Tensor α) : Outcome (Tensor α) := do
  let a ← ofValue (← params.require "activation")
  a.apply t

/-- The slopes before shares are taken, from the shares `y` and the slopes `g` at them. -/
def shareSlopes (y g : Tensor α) : Tensor α :=
  Tensor.ofRows y.dims y.width fun r =>
    let place := fun k => r * y.width + k
    let level := Scalar.sum y.width fun k => g.entry (place k) * y.entry (place k)
    Tensor.row y.width fun k => y.entry (place k) * (g.entry (place k) - level)

/-- The slopes before an activation, from its result `y` and the slopes `g` at it. -/
def slopes (a : Activation) (y g : Tensor α) : Tensor α :=
  let entrywise := fun f : α → α → α => Tensor.ofFn y.dims fun i => f (y.entry i) (g.entry i)
  match a with
  | .relu => entrywise fun y g => if Scalar.atMost y 0 then 0 else g
  | .sigmoid => entrywise fun y g => g * (y * (Scalar.one - y))
  | .tanh => entrywise fun y g => g * (Scalar.one - y * y)
  | .softmax => shareSlopes y g
  | .linear => g

/-- The activation that settings name; none counts as `linear`. -/
def named (params : Entries) : Activation :=
  match ofValue (params.getNull "activation") with
  | .ok a => a
  | .error _ => .linear

end Activation

end BlockNet
