import BlockNet.Catalog.Basic
/-! # Placed blocks -/

namespace BlockNet

/-- Does a value that comes where a dict belongs hold a name? A text does if the name is part of
it, a list if the name is among its members. -/
def Value.mentions (v : Value) (name : String) : Outcome Bool :=
  match v with
  | .dict entries => .ok (Entries.has entries name)
  | .list items => .ok (items.any fun item => item.equal false (.text name))
  | .tuple items => .ok (items.any fun item => item.equal false (.text name))
  | .text s => .ok ((s.splitOn name).length != 1)
  | _ => mishap .wrongType

/-- One placed block. `params` holds overrides only, defaults come from the catalog at the
point of use, and `extra` holds what the editor keeps beside the fields. -/
structure Node where
  id : String
  blockType : String
  params : Entries
  label : Value
  isSource : Bool
  position : Value
  extra : Entries

namespace Node

/-- The label, or the block type of a node without one. -/
def displayLabel (n : Node) : Value := n.label.orElse (.text n.blockType)

/-- The label as part of a message. -/
def labelText (n : Node) : String := n.displayLabel.plain

/-- The names of the fields of a payload in the editor's form. -/
def fieldNames : List String := ["id", "type", "position", "data"]

/-- The names of the fields inside `data`. -/
def dataNames : List String := ["blockType", "label", "parameters", "isSource"]

/-- The entries with other names than the given ones. -/
def others (entries : Entries) (names : List String) : Entries :=
  entries.filter fun e => !names.any fun name => e.1.sameKey name

/-- What a payload in the editor's form holds beside its fields: other entries, other entries of
`data`, and the node type. -/
def extraOf (payload data : Entries) : Entries :=
  let dataExtra := others data dataNames
  let extra := others payload fieldNames
  let extra := if dataExtra.isEmpty then extra else extra.set "data" (.dict dataExtra)
  match payload.get? "type" with
  | some t => extra.set "type" t
  | none => extra

/-- Parameters as a payload holds them: nothing, a dict, or a list of pairs. -/
def paramsOf (v : Value) : Outcome Entries := (v.orElse (.dict [])).toEntries

/-- Reads the editor's form, in which block type, label and parameters stand inside `data`. -/
def ofEditor (payload : Entries) : Outcome Node := do
  let data ← ((payload.getNull "data").orElse (.dict [])).members
  let id ← payload.require "id"
  let blockType ← data.require "blockType"
  let params ← paramsOf (data.getNull "parameters")
  .ok
    { id := id.plain
      blockType := blockType.plain
      params
      label := data.getNull "label"
      isSource := (data.getNull "isSource").truthy
      position := payload.getNull "position"
      extra := extraOf payload data }

/-- Reads the flat form, which keeps nothing beside its fields. -/
def ofFlat (payload : Entries) : Outcome Node := do
  let id ← payload.require "id"
  let blockType ← payload.require "block_type"
  let params ← paramsOf (payload.getNull "params")
  .ok
    { id := id.plain
      blockType := blockType.plain
      params
      label := payload.getNull "label"
      isSource := (payload.getNull "is_source").truthy
      position := payload.getNull "position"
      extra := [] }

/-- Reads a payload in either form; `data` marks the editor's. -/
def ofValue (payload : Value) : Outcome Node := do
  let editor ← payload.mentions "data"
  match payload with
  | .dict entries => if editor then ofEditor entries else ofFlat entries
  | _ => mishap (if editor then .absentMember else .wrongType)

/-- The `data` of a node in the editor's form. -/
def dataEntries (n : Node) : Entries :=
  let kept : Entries := match n.extra.get? "data" with
    | some (.dict entries) => entries
    | _ => []
  let data := (kept.set "blockType" (.text n.blockType)).set "parameters" (.dict n.params)
  let data := match n.label with
    | .null => data
    | label => data.set "label" label
  if n.isSource then data.set "isSource" (.bool true) else data

/-- The node in the editor's form. -/
def toValue (n : Node) : Value :=
  let rest := n.extra.erase "data"
  let out : Entries := [(.text "id", .text n.id)]
  let out := match rest.get? "type" with
    | some t => out.set "type" t
    | none => out
  let out := match n.position with
    | .null => out
    | position => out.set "position" position
  .dict ((out.set "data" (.dict n.dataEntries)).merge (rest.erase "type"))

/-- Stores a parameter in canonical form; gives the stored value beside the node. -/
def setParam (n : Node) (catalog : Catalog) (name value : Value) : Outcome (Node × Value) := do
  let definition ← catalog.require n.blockType
  let coerced ← definition.coerceParam name value
  .ok ({ n with params := n.params.set name coerced }, coerced)

/-- Stores a parameter of the node at hand in canonical form, and gives the stored value. A value that
does not fit is refused before anything is stored. -/
def assign (catalog : Catalog) (name value : Value) : ExceptT Fault (StateM Node) Value := do
  let n ← get
  let definition ← catalog.require n.blockType
  let coerced ← definition.coerceParam name value
  set { n with params := n.params.set name coerced }
  return coerced

/-- The parameters of a node: the defaults of its type overlaid by its own. -/
def effectiveParams (n : Node) (catalog : Catalog) : Outcome Entries := do
  (← catalog.require n.blockType).effectiveParams n.params

end Node

end BlockNet
