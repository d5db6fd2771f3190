import BlockNet.Graph.Node
/-! # Connections between ports -/

namespace BlockNet

/-- An edge from a port of one node to a port of another. `isValid` and `error` remember the
last verdict on it, and `extra` holds what the editor keeps beside the fields. -/
structure Connection where
  id : Value
  source : String
  sourcePort : Value
  target : String
  targetPort : Value
  isValid : Value
  error : Value
  extra : Entries

namespace Connection

/-- Does the connection touch a node? -/
def touches (c : Connection) (id : String) : Bool := c.source == id || c.target == id

/-- The names of the fields of a payload in the editor's form. -/
def fieldNames : List String :=
  ["id", "source", "target", "sourceHandle", "targetHandle", "data"]

/-- The id of a payload, or the two ends joined if it has none. -/
def idOf (payload : Entries) : Outcome Value :=
  let id := payload.getNull "id"
  if id.truthy then .ok (.text id.plain)
  else do
    let source ← payload.require "source"
    let target ← payload.require "target"
    .ok (.text (source.plain ++ "-" ++ target.plain))

/-- The text under a name that must be there. -/
def textOf (payload : Entries) (name : String) : Outcome String := do
  .ok (← payload.require name).plain

/-- Reads the editor's form, whose ports are handles and whose verdict stands in `data`. -/
def ofEditor (payload : Entries) : Outcome Connection := do
  let data := (payload.getNull "data").orElse (.dict [])
  let id ← idOf payload
  let source ← textOf payload "source"
  let sourcePort : Value ← textOf payload "sourceHandle"
  let target ← textOf payload "target"
  let targetPort : Value ← textOf payload "targetHandle"
  let data ← data.members
  .ok
    { id, source, sourcePort, target, targetPort
      isValid := data.getNull "isValid"
      error := data.getNull "error"
      extra := Node.others payload fieldNames }

/-- Reads the flat form. -/
def ofFlat (payload : Entries) : Outcome Connection := do
  let id ← idOf payload
  let source ← textOf payload "source"
  let sourcePort : Value ← textOf payload "source_port"
  let target ← textOf payload "target"
  let targetPort : Value ← textOf payload "target_port"
  .ok ⟨id, source, sourcePort, target, targetPort, .null, .null, []⟩

/-- Reads a payload in either form; a handle marks the editor's. -/
def ofValue (payload : Value) : Outcome Connection := do
  let source ← payload.mentions "sourceHandle"
  let target ← payload.mentions "targetHandle"
  match payload with
  | .dict entries => if source || target then ofEditor entries else ofFlat entries
  | _ => mishap .absentMember

/-- The connection in the editor's form; the verdict is left out while there is none. -/
def toValue (c : Connection) : Value :=
  let out : Entries := [(.text "id", c.id), (.text "source", .text c.source),
    (.text "sourceHandle", c.sourcePort), (.text "target", .text c.target),
    (.text "targetHandle", c.targetPort)]
  let out := match c.isValid with
    | .null => out
    | isValid =>
        let data : Entries := [(.text "isValid", isValid)]
        out.set "data" (.dict (if c.error.truthy then data.set "error" c.error else data))
  .dict (out.merge c.extra)

end Connection

end BlockNet
