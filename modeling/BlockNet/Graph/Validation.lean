import BlockNet.Graph.Inference
import BlockNet.Shape.Compatibility
/-! # Checking connections

A problem with a connection is an answer, not a failure: it has a code and a text, and the
report of a graph lists the problems in the order of the connections. -/

namespace BlockNet

/-- The verdict on a connection. -/
inductive Verdict where
  | accepted (shape : TensorShape) (warning : Option String)
  | refused (code : ErrorCode) (error : String) (index : Option Nat)

namespace Verdict

/-- Is the connection accepted? -/
def valid : Verdict → Bool
  | .accepted .. => true
  | .refused .. => false

/-- The text of a refusal. -/
def error? : Verdict → Option String
  | .accepted .. => none
  | .refused _ error _ => some error

end Verdict

/-- A problem in the report of a graph. -/
structure Issue where
  connectionId : Value
  sourceLabel : Value
  targetLabel : Value
  code : ErrorCode
  message : String
  index : Option Nat

/-- The issue as shown to a reader. -/
def Issue.text (i : Issue) : String :=
  i.sourceLabel.plain ++ " → " ++ i.targetLabel.plain ++ ": " ++ i.message

/-- The verdict on a produced shape at a port that expects another. -/
def judgeShapes (produced expected : TensorShape) : Verdict :=
  if produced.dtype.feeds expected.dtype then
    let verdict := produced.verdict expected
    match verdict.code?, verdict.message? with
    | some code, some message => .refused code ("Shape incompatible: " ++ message) verdict.index?
    | _, _ => .accepted produced verdict.warning?
  else
    .refused .dtypeMismatch
      (s!"Data type mismatch: {produced.dtype.name} cannot connect to {expected.dtype.name}") none

/-- An unknown block type is refused. -/
def refuseType (blockType : String) : Verdict :=
  .refused .unknownBlockType ("Unknown block type: " ++ blockType) none

/-- A missing port is refused. -/
def refusePort (port : Value) (blockType : String) : Verdict :=
  .refused .portNotFound ("Port not found: " ++ port.plain ++ " on " ++ blockType) none

/-- The inferred shape of an output port, or the text of the bad parameter that prevents it. Any
other fault stays a fault. -/
def inferred (catalog : Catalog) (source : Node) (port : Value) :
    Outcome (Except String TensorShape) :=
  match inferOutputShape catalog source port none with
  | .ok shape => .ok (.ok shape)
  | .error (.invalidParameter blockType name reason) =>
      .ok (.error (((Fault.invalidParameter blockType name reason).message?).getD ""))
  | .error fault => .error fault

/-- The verdict on a connection from a port of one node to a port of another. -/
def validateConnection (catalog : Catalog) (source : Node) (sourcePort : Value) (target : Node)
    (targetPort : Value) : Outcome Verdict :=
  match catalog.get? source.blockType, catalog.get? target.blockType with
  | none, _ => .ok (refuseType source.blockType)
  | _, none => .ok (refuseType target.blockType)
  | some sourceDef, some targetDef =>
      match sourceDef.outputPort? sourcePort, targetDef.inputPort? targetPort with
      | none, _ => .ok (refusePort sourcePort source.blockType)
      | _, none => .ok (refusePort targetPort target.blockType)
      | some _, some expected => do
          match ← inferred catalog source sourcePort with
          | .ok produced => .ok (judgeShapes produced expected.shape)
          | .error text => .ok (.refused .invalidParameter text none)

/-- The last node of an id, which stands for all of them. -/
def lastNode? (nodes : List Node) (id : String) : Option Node :=
  nodes.reverse.find? (·.id == id)

/-- The problem with one connection of a graph; one with a missing end has none. -/
def connectionIssue (catalog : Catalog) (nodes : List Node) (c : Connection) :
    Outcome (Option Issue) :=
  match lastNode? nodes c.source, lastNode? nodes c.target with
  | some source, some target => do
      match ← validateConnection catalog source c.sourcePort target c.targetPort with
      | .accepted .. => .ok none
      | .refused code message index =>
          .ok (some ⟨c.id, source.displayLabel, target.displayLabel, code, message, index⟩)
  | _, _ => .ok none

/-- The problems of a graph, in the order of its connections. -/
def validateGraph (catalog : Catalog) (g : Graph) : Outcome (List Issue) := do
  .ok ((← g.connections.mapM (connectionIssue catalog g.nodes)).filterMap id)

/-- The shapes at both ends of a connection and the verdict on it, line by line. -/
def explainConnection (catalog : Catalog) (source : Node) (sourcePort : Value) (target : Node)
    (targetPort : Value) : Outcome String := do
  let head := "Connection " ++ source.labelText ++ "." ++ sourcePort.plain ++ " → "
    ++ target.labelText ++ "." ++ targetPort.plain
  let output := (catalog.get? source.blockType).bind (·.outputPort? sourcePort)
  let input := (catalog.get? target.blockType).bind (·.inputPort? targetPort)
  let sourceLines ← match output with
    | none => .ok ["  source port: <missing>"]
    | some port => do
        let found := match ← inferred catalog source sourcePort with
          | .ok shape => shape.describe
          | .error text => "<" ++ text ++ ">"
        .ok ["  source template: " ++ port.shape.describe, "  source inferred: " ++ found]
  let targetLine := match input with
    | none => "  target port: <missing>"
    | some port => "  target template: " ++ port.shape.describe
  let verdict ← validateConnection catalog source sourcePort target targetPort
  let result := match verdict with
    | .accepted _ none => "  result: valid"
    | .accepted _ (some warning) => "  result: valid (" ++ warning ++ ")"
    | .refused code error _ => "  result: " ++ code.text ++ " " ++ error
  .ok ("\n".intercalate (head :: sourceLines ++ [targetLine, result]))

namespace Snapshot

/-- The verdict on a connection of a snapshot: is it valid, and what is wrong with it. -/
def verdictOn (catalog : Catalog) (g : Snapshot) (c : Connection) :
    Outcome (Bool × Option String) :=
  match g.node? c.source, g.node? c.target with
  | some source, some target => do
      let verdict ← validateConnection catalog source c.sourcePort target c.targetPort
      .ok (verdict.valid, verdict.error?)
  | _, _ => .ok (false, some "Connection references a missing node")

/-- The connection with a verdict remembered. -/
def remember (c : Connection) (verdict : Bool × Option String) : Connection :=
  { c with
    isValid := .bool verdict.1
    error := match verdict.2 with
      | some error => .text error
      | none => .null }

/-- Remembers the verdict on every connection up to the first that cannot be judged: the
connections afterwards, and the invalid ones or the fault. -/
def refreshAll (catalog : Catalog) (g : Snapshot) :
    List Connection → List Connection × Outcome (List Connection)
  | [] => ([], .ok [])
  | c :: rest =>
      match verdictOn catalog g c with
      | .error fault => (c :: rest, .error fault)
      | .ok verdict =>
          let fresh := remember c verdict
          let (cs, invalid) := refreshAll catalog g rest
          (fresh :: cs, if verdict.1 then invalid else invalid.map (fresh :: ·))

/-- Remembers the verdict on every connection and gives the invalid ones. -/
def refreshValidity (catalog : Catalog) (g : Snapshot) : Snapshot × Outcome (List Connection) :=
  let (cs, invalid) := refreshAll catalog g g.connections
  ({ g with connections := cs }, invalid)

end Snapshot

end BlockNet
