import BlockNet.Model.Basic
/-! # The complexity of a model

Layers add to the complexity by their kind, the sized ones by the decimal logarithm of their size
over a usual size. The sum is kept between a half and five. -/

namespace BlockNet

namespace Complexity

/-- The decimal logarithm of the size that settings name over a usual size. -/
def scale (params : Value) (name : String) (usual : Int) : Outcome Float := do
  let size ← (← params.fields).integer name
  let share ← (Number.whole size).dividedBy (.whole usual)
  if share ≤ 0 then mishap .unreadable else .ok share.log10

/-- What a layer of a kind with given settings adds. -/
def term (kind : String) (params : Value) : Outcome Float :=
  match kind with
  | "Dense" => scale params "units" 10
  | "Conv2D" => (scale params "filters" 8).map (· + 0.5)
  | "LSTM" => (scale params "units" 32).map (· + 1)
  | "MultiHeadAttention" => .ok 2
  | "Dropout" => .ok (-0.2)
  | _ => .ok 0

/-- A number kept between a half and five. -/
def clamped (x : Float) : Float :=
  let x := if x < 5 then x else 5
  if 0.5 < x then x else 0.5

/-- The complexity of layers given by kinds and settings. -/
def score (layers : List (String × Value)) : Outcome Float := do
  let terms ← layers.mapM fun (kind, params) => term kind params
  .ok (clamped (terms.foldl (· + ·) 0))

end Complexity

namespace Model

variable {α : Type}

/-- The complexity of a model. -/
def complexity (m : Model α) : Outcome Float :=
  Complexity.score (m.layers.map fun l => (l.kind, .dict l.params))

/-- The line on a layer in a summary: its kind and its first two settings. -/
def summaryLine (number : Nat) (l : Layer α) : String :=
  let settings := (l.params.take 2).map fun (name, value) => name.plain ++ "=" ++ value.plain
  let line := s!"{number}. {l.kind}"
  if settings.isEmpty then line else line ++ " (" ++ ", ".intercalate settings ++ ")"

/-- A summary of a model, line by line. -/
def summary (m : Model α) : Outcome String := do
  let complexity ← m.complexity
  let head :=
    ["Model Architecture:", s!"Total Layers: {m.layers.length}",
      s!"Total Connections: {m.connectionCount}",
      "Estimated Parameters: " ++ Decimal.grouped m.weightCount,
      "Model Complexity: " ++ Decimal.fixed 1 complexity ++ "/5.0", ""]
  let lines := m.layers.mapIdx fun i l => summaryLine (i + 1) l
  .ok ("\n".intercalate (head ++ lines) ++ "\n")

end Model

end BlockNet
