import BlockNet.Graph.Validation
/-! # Calls of an editor

An editor changes a snapshot by calls. What a call comes to is said twice: by the snapshot that it gives,
and step by step on a canvas, where a call looks a node up by its key, stores it or takes it off, and
writes into the connections. A call that fails stops where it is and leaves on the canvas what its steps
have done so far. -/

namespace BlockNet

/-- A call of an editor. -/
inductive Edit where
  | place (payload : Value)
  | addNode (n : Node)
  | connect (source sourcePort target targetPort id : Value)
  | removeNode (id : Value)
  | removeConnection (id : Value)
  | setParam (catalog : Catalog) (id name value : Value)
  | refreshValidity (catalog : Catalog)

namespace Snapshot

/-- What a call gives beside the snapshot that it leaves: a call that fails leaves the one before it. -/
def keep {β : Type} (g : Snapshot) : Outcome (Snapshot × β) → Outcome Unit × Snapshot
  | .ok (changed, _) => (.ok (), changed)
  | .error fault => (.error fault, g)

/-- The snapshot placed with a node, and the node. -/
def withNode (g : Snapshot) (n : Node) : Outcome (Snapshot × Node) := do .ok (← g.addNode n, n)

/-- A call to a snapshot: does it succeed, and what does it leave? -/
def edit (g : Snapshot) : Edit → Outcome Unit × Snapshot
  | .place payload => g.keep (do g.withNode (← Node.ofValue payload))
  | .addNode n => g.keep (g.withNode n)
  | .connect source sourcePort target targetPort id =>
      g.keep (g.connect source sourcePort target targetPort id)
  | .removeNode id => g.keep (g.removeNode id)
  | .removeConnection id => g.keep (g.removeConnection id)
  | .setParam catalog id name value => g.keep (g.setParam catalog id name value)
  | .refreshValidity catalog =>
      ((g.refreshValidity catalog).2.map fun _ => (), (g.refreshValidity catalog).1)

/-- The snapshot after calls to an empty one, some of which may have failed. -/
def after (edits : List Edit) : Snapshot := edits.foldl (fun g e => (g.edit e).2) empty

end Snapshot

/-- Nodes under keys, in the order in which the keys came, and connections. -/
structure Canvas where
  nodes : List (String × Node)
  connections : List Connection

/-- Steps that read and change a canvas, and may fail. -/
abbrev Editing := ExceptT Fault (StateM Canvas)

/-- Does a connection start or end at an id? -/
def Connection.meets (c : Connection) (id : Value) : Bool :=
  id.equal false c.source || id.equal false c.target

namespace Canvas

/-- The canvas without nodes. -/
def empty : Canvas := ⟨[], []⟩

/-- The key that an id is, if a node stands under it. What cannot be a key is not looked up. -/
def key? (s : Canvas) (id : Value) : Outcome (Option String) :=
  match id with
  | .text key => .ok (if s.nodes.any (·.1 == key) then some key else none)
  | id => if id.hashable then .ok none else mishap .wrongType

/-- The node under a key. -/
def node? (s : Canvas) (key : String) : Option Node := (s.nodes.find? (·.1 == key)).map (·.2)

/-- Stores a node under a key: in place if the key is there, else at the end. -/
def store (key : String) (n : Node) : List (String × Node) → List (String × Node)
  | [] => [(key, n)]
  | e :: rest => if e.1 == key then (key, n) :: rest else e :: store key n rest

/-- Places a node under its id. -/
def addNode (n : Node) : Editing Node := do
  let s ← get
  if s.nodes.any (·.1 == n.id) then throw (.duplicateNode n.id)
  else
    set { s with nodes := store n.id n s.nodes }
    return n

/-- The key of the placed node at which a connection is to end. -/
def placed (s : Canvas) (id : Value) : Outcome String := do
  match ← s.key? id with
  | some key => .ok key
  | none => .error .unplacedEnds

/-- Connects two placed nodes. -/
def connect (source sourcePort target targetPort id : Value) : Editing Connection := do
  let s ← get
  let start ← s.placed source
  let stop ← s.placed target
  let c : Connection :=
    { id := id.orElse (.text ("c" ++ toString (s.connections.length + 1)))
      source := start
      sourcePort
      target := stop
      targetPort
      isValid := .null
      error := .null
      extra := [] }
  set { s with connections := s.connections ++ [c] }
  return c

/-- Takes the node of an id off, if there is one. -/
def pop (id : Value) : Editing (Option Node) := do
  let s ← get
  match ← s.key? id with
  | none => return none
  | some key =>
      set { s with nodes := s.nodes.eraseP (·.1 == key) }
      return s.node? key

/-- Drops a node, and then the connections that touch it. -/
def removeNode (id : Value) : Editing Node := do
  match ← pop id with
  | none => throw (.unknownNode id)
  | some n =>
      modify fun s => { s with connections := s.connections.filter (!·.meets id) }
      return n

/-- Drops the connection at the place where an id was found. -/
def removeAt (id : Value) : Option Nat → Editing Connection
  | none => throw (.unknownConnection id)
  | some i => do
      let s ← get
      let c ← orMishap .badIndex s.connections[i]?
      set { s with connections := s.connections.eraseIdx i }
      return c

/-- Drops the connection at the first place where an id stands. -/
def removeConnection (id : Value) : Editing Connection := do
  removeAt id ((← get).connections.findIdx? (·.id.equal false id))

/-- Stores a parameter of the node of an id, which changes where it stands. -/
def setParam (catalog : Catalog) (id name value : Value) : Editing Value := do
  let s ← get
  match (← s.key? id).bind fun key => (s.node? key).map (key, ·) with
  | none => throw (.unknownNode id)
  | some (key, n) =>
      let (answer, changed) := (Node.assign catalog name value).run n
      set { s with nodes := store key changed s.nodes }
      answer

/-- The verdict on a connection: is it valid, and what is wrong with it. -/
def verdictOn (catalog : Catalog) (s : Canvas) (c : Connection) : Outcome (Bool × Option String) :=
  match s.node? c.source, s.node? c.target with
  | some source, some target => do
      let verdict ← validateConnection catalog source c.sourcePort target c.targetPort
      .ok (verdict.valid, verdict.error?)
  | _, _ => .ok (false, some "Connection references a missing node")

/-- Writes the verdict on a connection into it, for one after the other behind those that are done, and
gives the invalid ones. -/
def refreshFrom (catalog : Catalog) (done : List Connection) :
    List Connection → Editing (List Connection)
  | [] => return []
  | c :: rest => do
      let s ← get
      let verdict ← s.verdictOn catalog c
      let fresh := Snapshot.remember c verdict
      set { s with connections := done ++ fresh :: rest }
      let invalid ← refreshFrom catalog (done ++ [fresh]) rest
      return if verdict.1 then invalid else fresh :: invalid

/-- Writes the verdict on every connection into it. -/
def refreshValidity (catalog : Catalog) : Editing (List Connection) := do
  refreshFrom catalog [] (← get).connections

/-- The steps of a call. -/
def steps : Edit → Editing Unit
  | .place payload => do let _ ← addNode (← Node.ofValue payload)
  | .addNode n => do let _ ← addNode n
  | .connect source sourcePort target targetPort id => do
      let _ ← connect source sourcePort target targetPort id
  | .removeNode id => do let _ ← removeNode id
  | .removeConnection id => do let _ ← removeConnection id
  | .setParam catalog id name value => do let _ ← setParam catalog id name value
  | .refreshValidity catalog => do let _ ← refreshValidity catalog

/-- The canvas after calls to an empty one, some of which may have failed. -/
def after (edits : List Edit) : Canvas := edits.foldl (fun s e => ((steps e).run s).2) empty

end Canvas

end BlockNet
