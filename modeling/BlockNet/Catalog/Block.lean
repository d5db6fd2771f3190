import BlockNet.Catalog.Param
import BlockNet.Shape.Basic
/-! # Block types -/

namespace BlockNet

/-- A named place where a connection starts or ends. -/
structure Port where
  name : Value
  shape : TensorShape
  description : Value

/-- What a block type is: its ports on each side and the schemas of its parameters. A
computational block becomes a layer; losses, optimizers and data sources do not. -/
structure BlockDefinition where
  blockType : String
  inputs : List Port
  outputs : List Port
  parameters : List ParamSpec
  category : Value
  description : Value
  computational : Bool

namespace BlockDefinition

/-- The input port of a name. -/
def inputPort? (d : BlockDefinition) (name : Value) : Option Port :=
  d.inputs.find? (·.name.sameKey name)

/-- The output port of a name. -/
def outputPort? (d : BlockDefinition) (name : Value) : Option Port :=
  d.outputs.find? (·.name.sameKey name)

/-- The place of an input port; an unknown name comes after all ports. -/
def inputIndex (d : BlockDefinition) (name : Value) : Nat :=
  d.inputs.findIdx (·.name.sameKey name)

/-- The schema of a parameter. -/
def param? (d : BlockDefinition) (name : Value) : Option ParamSpec :=
  d.parameters.find? (·.name.sameKey name)

/-- The default values of all parameters, whose names must be able to be keys. -/
def defaults (d : BlockDefinition) : Outcome Entries :=
  if d.parameters.all (·.name.hashable) then
    .ok (Entries.merge [] (d.parameters.map fun spec => (spec.name, spec.default)))
  else mishap .wrongType

/-- The canonical form of a value for a parameter of the block. -/
def coerceParam (d : BlockDefinition) (name value : Value) : Outcome Value :=
  match d.param? name with
  | none => .error (.invalidParameter d.blockType name "no such parameter")
  | some spec => spec.coerce value d.blockType

/-- The canonical form of an override: a parameter without a schema is carried along as is. -/
def coerceOverride (d : BlockDefinition) (name value : Value) : Outcome Value :=
  match d.param? name with
  | none => .ok value
  | some spec => spec.coerce value d.blockType

/-- The defaults overlaid by overrides in canonical form. -/
def effectiveParams (d : BlockDefinition) (overrides : Entries) : Outcome Entries := do
  overrides.foldlM
    (fun params e => do .ok (params.set e.1 (← d.coerceOverride e.1 e.2))) (← d.defaults)

end BlockDefinition

end BlockNet
