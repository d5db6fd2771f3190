import BlockNet.Graph.Snapshot
/-! # Shapes at the ports of a node

What a block produces follows from its port template, or from the shape that is known to enter
it, by one rule per block type. A rule touches one family of axes only. -/

namespace BlockNet

/-- The axis at an index divided by a pool size, if the axis has a size. -/
def TensorShape.pooled (s : TensorShape) (pool : Int) (index : Nat) : Outcome TensorShape :=
  match s.dims[index]? with
  | some (.size n) => if pool = 0 then mishap .zeroDivisor else s.withSize index (Int.fdiv n pool)
  | _ => .ok s

/-- The shape that a block type makes of the shape that enters it. Types without a rule pass it
on. -/
def shapeRule (blockType : String) (params : Entries) (base : TensorShape) :
    Outcome TensorShape :=
  match blockType with
  | "Dense" | "LSTM" =>
      if base.rank = 0 then .ok base else params.integer "units" >>= base.withSize (-1)
  | "Conv2D" =>
      if base.rank ≠ 4 then .ok base else params.integer "filters" >>= base.withSize 3
  | "MaxPooling2D" =>
      if base.rank ≠ 4 then .ok base
      else do
        let pool ← params.integer "pool_size"
        let s ← base.pooled pool 1
        s.pooled pool 2
  | "MultiHeadAttention" =>
      if base.rank < 3 then .ok base else params.integer "dim" >>= base.withSize 2
  | _ => .ok base

/-- The template of an output port, of the first one if null names it. -/
def BlockDefinition.outputTemplate (d : BlockDefinition) (port : Value) : Outcome TensorShape :=
  match d.outputs, port with
  | [], _ => .error (.general (d.blockType ++ " has no output ports"))
  | first :: _, .null => .ok first.shape
  | _, port =>
      match d.outputPort? port with
      | some output => .ok output.shape
      | none => .error (.portNotFound port.plain d.blockType)

/-- What the rule of a block type is applied to. -/
structure RuleCall where
  blockType : String
  params : Entries
  base : TensorShape

/-- What the rule gives. The settings are put in the order of their names first, so the names must
have one. -/
def RuleCall.shape (c : RuleCall) : Outcome TensorShape :=
  if c.params.sortable then shapeRule c.blockType c.params c.base else mishap .wrongType

/-- What the rule for a port of a node is applied to. A known shape at its input takes the place
of the template, with the template's element type. -/
def Node.ruleCall (catalog : Catalog) (node : Node) (port : Value)
    (input : Option TensorShape) : Outcome RuleCall := do
  let definition ← catalog.require node.blockType
  let template ← definition.outputTemplate port
  let base := match input with
    | some shape => shape.withDtype template.dtype
    | none => template
  let params ← definition.effectiveParams node.params
  .ok ⟨node.blockType, params, base⟩

/-- The shape that a node produces on a port. -/
def inferOutputShape (catalog : Catalog) (node : Node) (port : Value)
    (input : Option TensorShape) : Outcome TensorShape := do
  (← node.ruleCall catalog port input).shape

end BlockNet
