import BlockNet.Layer.Basic
/-! # Dropout

While a model is trained, each entry is dropped with a given rate and the others grow by as much
as keeps the mean. Otherwise entries pass as they are. -/

namespace BlockNet.Dropout

variable {α : Type} [Scalar α]

/-- Does the draw after `n` others keep an entry? -/
def keeps (rate : α) (g : Generator) (n : Nat) : Bool := Scalar.atMost rate (g.uniformAt n)

/-- An entry after the draw for it. -/
def thinned (rate : α) (g : Generator) (n : Nat) (x : α) : α :=
  x * (if keeps rate g n then Scalar.one else 0) / (Scalar.one - rate)

/-- Are entries dropped at a rate? -/
def isActive (rate : α) (training : Bool) : Bool := training && !Scalar.atMost rate 0

/-- The layer's result, one draw per entry if entries are dropped. -/
def forward (layer : Layer α) (inputs : List (Signal α)) (training : Bool) : Draws (Signal α) := do
  let x ← firstOf inputs
  let rate ← layer.params.real "rate"
  if isActive rate training then
    let g ← get
    set (g.skip x.size)
    let t := x.toReal
    return .real (Tensor.ofFn t.dims fun i => thinned rate g i (t.entry i))
  else return x

/-- The slopes at the input, from the slopes `slope` at the result and the stream before the
layer drew from it. -/
def slopes (layer : Layer α) (training : Bool) (start : Generator) (slope : Tensor α) :
    Slopes α :=
  let rate : α := match layer.params.real "rate" with
    | .ok rate => rate
    | .error _ => 0
  let input := if isActive rate training then
      Tensor.ofFn slope.dims fun i => thinned rate start i (slope.entry i)
    else slope
  { inputs := [input], weights := [] }

end BlockNet.Dropout
