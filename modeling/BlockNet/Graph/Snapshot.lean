import BlockNet.Graph.Connection
/-! # Graph snapshots

A snapshot is the state of the editor: placed nodes with distinct ids, and connections. While
the user edits, a connection may name a node that is not there; readers skip those. -/

namespace BlockNet

/-- Placed nodes and the connections between their ports. -/
structure Snapshot where
  nodes : List Node
  connections : List Connection
  nodup : (nodes.map (·.id)).Nodup

namespace Snapshot

/-- The snapshot without nodes. -/
def empty : Snapshot := ⟨[], [], by simp⟩

/-- The node of an id. -/
def node? (g : Snapshot) (id : String) : Option Node := g.nodes.find? (·.id == id)

/-- The node that must carry an id. What cannot be a key is no id, and only texts are ids of nodes. -/
def node (g : Snapshot) (id : Value) : Outcome Node :=
  match id with
  | .text name => (g.node? name).elim (.error (.unknownNode id)) .ok
  | id => if id.hashable then .error (.unknownNode id) else mishap .wrongType

/-- The ids after a node at the end stay distinct if its id is new. -/
theorem nodup_concat {nodes : List Node} {n : Node} (h : (nodes.map (·.id)).Nodup)
    (hn : nodes.any (·.id == n.id) = false) : ((nodes ++ [n]).map (·.id)).Nodup := by
  rw [List.map_append, List.map_singleton]
  refine List.nodup_append.2 ⟨h, by simp, fun a ha b hb e => ?_⟩
  rw [List.mem_singleton] at hb
  obtain ⟨m, hm, rfl⟩ := List.mem_map.1 ha
  have := List.any_eq_false.1 hn m hm
  simp [e, hb] at this

/-- Places a node; its id must be new. -/
def addNode (g : Snapshot) (n : Node) : Outcome Snapshot :=
  if h : g.nodes.any (·.id == n.id) then .error (.duplicateNode n.id)
  else .ok ⟨g.nodes ++ [n], g.connections, nodup_concat g.nodup (by simpa using h)⟩

/-- The id of the placed node at which a connection is to end. -/
def placed (g : Snapshot) (id : Value) : Outcome String :=
  match g.node id with
  | .ok n => .ok n.id
  | .error (.unknownNode _) => .error .unplacedEnds
  | .error fault => .error fault

/-- Connects two placed nodes. Without an id the connection is numbered after the count of
connections. -/
def connect (g : Snapshot) (source sourcePort target targetPort id : Value) :
    Outcome (Snapshot × Connection) := do
  let c : Connection :=
    { id := id.orElse (.text ("c" ++ toString (g.connections.length + 1)))
      source := ← g.placed source
      sourcePort
      target := ← g.placed target
      targetPort
      isValid := .null
      error := .null
      extra := [] }
  .ok ({ g with connections := g.connections ++ [c] }, c)

/-- Drops a node with every connection that touches it. -/
def removeNode (g : Snapshot) (id : Value) : Outcome (Snapshot × Node) := do
  let n ← g.node id
  .ok (⟨g.nodes.filter (·.id != n.id), g.connections.filter (!·.touches n.id),
    g.nodup.sublist (List.filter_sublist.map _)⟩, n)

/-- Drops the first connection of an id. -/
def removeConnection (g : Snapshot) (id : Value) : Outcome (Snapshot × Connection) :=
  match g.connections.find? (·.id.equal false id) with
  | some c => .ok ({ g with connections := g.connections.eraseP (·.id.equal false id) }, c)
  | none => .error (.unknownConnection id)

/-- The connections into a node. -/
def incoming (g : Snapshot) (id : Value) : List Connection :=
  g.connections.filter fun c => id.equal false c.target

/-- The connections out of a node. -/
def outgoing (g : Snapshot) (id : Value) : List Connection :=
  g.connections.filter fun c => id.equal false c.source

/-- Replaces the parameters of the node of an id. -/
def withParams (id : String) (params : Entries) (n : Node) : Node :=
  if n.id == id then { n with params } else n

/-- Replacing parameters keeps ids. -/
theorem map_id_withParams (id : String) (params : Entries) (nodes : List Node) :
    (nodes.map (withParams id params)).map (·.id) = nodes.map (·.id) := by
  rw [List.map_map]
  congr 1
  funext n
  by_cases h : n.id == id <;> simp [withParams, h]

/-- Stores a parameter of a node in canonical form; gives the stored value beside. -/
def setParam (g : Snapshot) (catalog : Catalog) (id name value : Value) :
    Outcome (Snapshot × Value) := do
  let n ← g.node id
  let (changed, coerced) ← n.setParam catalog name value
  .ok (⟨g.nodes.map (withParams n.id changed.params), g.connections, by
    rw [map_id_withParams]; exact g.nodup⟩, coerced)

/-- The snapshot of payloads. -/
def ofLists (nodes connections : List Value) : Outcome Snapshot := do
  let g ← nodes.foldlM (fun (g : Snapshot) v => do g.addNode (← Node.ofValue v)) empty
  let cs ← connections.mapM Connection.ofValue
  .ok { g with connections := cs }

/-- The snapshot of an editor's document; `edges` goes before `connections`. -/
def ofValue (payload : Value) : Outcome Snapshot := do
  let entries ← payload.members
  let edges := ((entries.get? "edges").or (entries.get? "connections")).getD (.tuple [])
  let nodes ← ((entries.get? "nodes").getD (.tuple [])).toList
  let g ← nodes.foldlM (fun (g : Snapshot) v => do g.addNode (← Node.ofValue v)) empty
  let cs ← (← edges.toList).mapM Connection.ofValue
  .ok { g with connections := cs }

/-- The snapshot as an editor's document. -/
def toValue (g : Snapshot) : Value :=
  .dict [(.text "nodes", .list (g.nodes.map Node.toValue)),
    (.text "edges", .list (g.connections.map Connection.toValue))]

/-- The snapshot in a line. -/
def shown (g : Snapshot) : String :=
  s!"GraphSnapshot(nodes={g.nodes.length}, connections={g.connections.length})"

end Snapshot

/-- A graph given for checking or compiling: nodes, whose ids may repeat, and connections. -/
structure Graph where
  nodes : List Node
  connections : List Connection

/-- The graph of a snapshot. -/
def Snapshot.graph (g : Snapshot) : Graph := ⟨g.nodes, g.connections⟩

/-- The graph of payloads; no connections are needed. -/
def Graph.ofValues (nodes edges : Value) : Outcome Graph := do
  let ns ← (← nodes.toList).mapM Node.ofValue
  let cs ← (← (edges.orElse (.tuple [])).toList).mapM Connection.ofValue
  .ok ⟨ns, cs⟩

end BlockNet
