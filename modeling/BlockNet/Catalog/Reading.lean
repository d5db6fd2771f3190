import BlockNet.Catalog.Basic
import BlockNet.Value.Reading
/-! # Definitions spelled out by values

Extensions describe their blocks by entries, of which those with a usual value may be left out. -/

namespace BlockNet

/-- What entries give under a name, or a usual value. -/
def Entries.valueOr (entries : Entries) (name : String) (usual : Value) : Value :=
  (entries.get? name).getD usual

/-- What entries list under a name, nothing if the name is not there. -/
def Entries.items (entries : Entries) (name : String) : Outcome (List Value) :=
  (entries.valueOr name (.tuple [])).toList

/-- The parameter schema that a value spells out; its name and its kind must be given. -/
def ParamSpec.ofValue (v : Value) : Outcome ParamSpec := do
  let es ← v.fields
  let name ← es.require "name"
  let kind ← es.require "kind"
  let options ← es.items "options"
  ParamSpec.checked
    { name
      kind := ← ParamKind.ofValue kind
      default := es.getNull "default"
      options
      minimum := es.getNull "minimum"
      maximum := es.getNull "maximum"
      description := es.valueOr "description" "" }

/-- The port that a value spells out; its name and its shape must be given. -/
def Port.ofValue (v : Value) : Outcome Port := do
  let es ← v.fields
  let name ← es.require "name"
  .ok ⟨name, ← TensorShape.ofTemplate (← es.require "shape"), es.valueOr "description" ""⟩

/-- The block type that a value spells out; its name must be given. -/
def BlockDefinition.ofValue (v : Value) : Outcome BlockDefinition := do
  let es ← v.fields
  let blockType ← es.require "type"
  let inputs ← (← es.items "inputs").mapM Port.ofValue
  let outputs ← (← es.items "outputs").mapM Port.ofValue
  let parameters ← (← es.items "parameters").mapM ParamSpec.ofValue
  if blockType.hashable then
    .ok { blockType := blockType.plain
          inputs
          outputs
          parameters
          category := es.valueOr "category" "Core Layers"
          description := es.valueOr "description" ""
          computational := (es.getNull "computational").truthy }
  else mishap .wrongType

namespace Catalog

/-- The definition of the block type that a value names. What cannot be a key names none. -/
def find (c : Catalog) (name : Value) : Outcome (Option BlockDefinition) :=
  match name with
  | .text blockType => .ok (c.get? blockType)
  | name => if name.hashable then .ok none else mishap .wrongType

/-- The definition that the block type of a value must have. -/
def demand (c : Catalog) (name : Value) : Outcome BlockDefinition := do
  match ← c.find name with
  | some d => .ok d
  | none => .error (.unknownBlockType name.plain)

/-- Does the block type that a value names become a layer? -/
def makesLayers (c : Catalog) (name : Value) : Outcome Bool := do
  .ok ((← c.find name).elim false (·.computational))

end Catalog

end BlockNet
