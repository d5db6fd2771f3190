import BlockNet.Model.Pass
/-! # Gradients

From the slope of a loss at the output of a pass, the visits are gone through backwards: each
hands the slope at its result on to its weights and to the layers that fed it. A layer is reached
only along feeds, and only if something before it can be adjusted at all. -/

namespace BlockNet

/-- The slopes of a loss at the weights that it depends on, under the names of the weights. -/
abbrev Gradient (α : Type) := List (String × Tensor α)

namespace Pass

variable {α : Type} [Scalar α]

/-- Can the result of a visit be adjusted, if those of some layers before it can be? Only real
numbers can, and only if a weight of the layer or one of its feeds can. -/
def isAdjustable (before : List String) (v : Visit α) : Bool :=
  v.output.isReal
    && (v.layer.weights.any (·.trainable) || v.layer.feeds.any before.contains)

/-- The ids of the layers whose results can be adjusted. -/
def adjustable (visits : List (Visit α)) : List String :=
  visits.foldl (fun ids v => if isAdjustable ids v then ids ++ [v.layer.id] else ids) []

/-- Adds a slope to the one that is known at the result of a layer. -/
def addSlope (known : Gradient α) (id : String) (g : Tensor α) : Gradient α :=
  match known with
  | [] => [(id, g)]
  | (key, h) :: rest =>
      if key = id then (key, Tensor.ofFn h.dims fun i => h.entry i + g.entry i) :: rest
      else (key, h) :: addSlope rest id g

/-- The slopes that are known at the results of layers and at weights. -/
structure Backlog (α : Type) where
  results : Gradient α
  weights : Gradient α

/-- The slopes of one visit, if the loss depends on its result. -/
def slopesOf (mode : PassMode) (v : Visit α) (known : Gradient α) : Option (Slopes α) :=
  match known.find? (·.1 == v.layer.id), Kernel.ofKind? v.layer.kind, v.output with
  | some (_, g), some k, .real y =>
      some (k.slopes v.layer (v.inputs.map Signal.toReal) mode v.start y g)
  | _, _, _ => none

/-- Hands the slope at the result of a visit on to its feeds and its weights. -/
def stepBack (mode : PassMode) (ids : List String) (v : Visit α) (b : Backlog α) : Backlog α :=
  if !ids.contains v.layer.id then b
  else
    match slopesOf mode v b.results with
    | none => b
    | some s =>
        let feeds := (v.layer.feeds.zip s.inputs).filter fun f => ids.contains f.1
        let weights := (v.layer.weights.zip s.weights).filter fun w => w.1.trainable
        { results := feeds.foldl (fun known f => addSlope known f.1 f.2) b.results
          weights := weights.map (fun w => (v.layer.weightKey w.1, w.2)) ++ b.weights }

/-- Does the output of the model depend on anything that can be adjusted? -/
def isTrainable (p : Pass α) (m : Model α) : Bool :=
  match m.layers.getLast? with
  | some last => (adjustable p.visits).contains last.id
  | none => false

/-- The gradient of a loss from its slope at the output of the model. -/
def gradient (p : Pass α) (m : Model α) (slope : Tensor α) : Gradient α :=
  match m.layers.getLast?.bind fun last => (outputOf? p.visits last.id).map fun y => (last.id, y) with
  | none => []
  | some (id, y) =>
      let start : Backlog α := ⟨[(id, (slope.reshape? y.dims).getD slope)], []⟩
      (p.visits.foldr (stepBack p.mode (adjustable p.visits)) start).weights

end Pass

namespace Gradient

variable {α : Type} [Scalar α]

/-- The slope at a weight, if the loss depends on it. -/
def at? (g : Gradient α) (key : String) : Option (Tensor α) := (g.find? (·.1 == key)).map (·.2)

/-- The sum of the squares of all slopes. -/
def squareSum (g : Gradient α) : α :=
  Scalar.sum g.length fun k =>
    match g[k]? with
    | some (_, t) => Scalar.sum t.size fun i => Scalar.square (t.entry i)
    | none => 0

/-- The length of the gradient as one long vector. -/
def norm (g : Gradient α) : α := Scalar.sqrt g.squareSum

/-- The gradient, shortened to a length if it is longer. -/
def clipped (g : Gradient α) (limit : α) : Gradient α :=
  let factor := limit / (g.norm + Scalar.one / Scalar.ofInt 1000000)
  let factor := if Scalar.less Scalar.one factor then Scalar.one else factor
  g.map fun (key, t) => (key, t.map (· * factor))

end Gradient

end BlockNet
