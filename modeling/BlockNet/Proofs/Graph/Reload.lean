import BlockNet.Graph.Validation
import BlockNet.Proofs.Compilation.Agreement
import BlockNet.Proofs.Graph.Connection

/-! # Snapshots written and read back

A snapshot that an editor can come to is read back from its document with the same nodes and the same
connections but for their errors. Nothing that checks or compiles a graph reads an error, so the answer
is the same for both. -/

namespace BlockNet

open List Entries

namespace Snapshot

/-! ## Reading documents -/

/-- Places the node that a payload gives. -/
def addPayload (g : Snapshot) (v : Value) : Outcome Snapshot := do g.addNode (← Node.ofValue v)

theorem addNode_of_fresh {g : Snapshot} {n : Node} (h : n.id ∉ g.nodes.map (·.id)) :
    ∃ g', g.addNode n = .ok g' ∧ g'.nodes = g.nodes ++ [n] ∧ g'.connections = g.connections := by
  have hfresh : ¬g.nodes.any (·.id == n.id) = true := by
    simpa using fun m hm hid => h (mem_map.mpr ⟨m, hm, hid⟩)
  exact ⟨_, dif_neg hfresh, rfl, rfl⟩

/-- Payloads of distinct ids are placed one after the other. -/
theorem foldlM_addPayload {payloads : List Value} {nodes : List Node} {g : Snapshot}
    (hread : Forall₂ (fun v n => Node.ofValue v = .ok n) payloads nodes)
    (hids : ((g.nodes ++ nodes).map (·.id)).Nodup) :
    ∃ g', payloads.foldlM addPayload g = .ok g' ∧ g'.nodes = g.nodes ++ nodes ∧
      g'.connections = g.connections := by
  induction hread generalizing g with
  | nil => exact ⟨g, rfl, (append_nil _).symm, rfl⟩
  | @cons v n payloads nodes hn _ ih =>
      have hfresh : n.id ∉ g.nodes.map (·.id) := by
        rw [map_append, nodup_append] at hids
        exact fun hmem => hids.2.2 _ hmem _ (mem_map_of_mem mem_cons_self) rfl
      obtain ⟨g₁, hadd, hnodes, hconnections⟩ := addNode_of_fresh hfresh
      have hids' : ((g₁.nodes ++ nodes).map (·.id)).Nodup := by
        rwa [hnodes, append_assoc]
      obtain ⟨g', hg', hnodes', hconnections'⟩ := ih hids'
      refine ⟨g', ?_, ?_, hconnections'.trans hconnections⟩
      · rw [foldlM_cons, addPayload, hn, ok_bind, hadd, ok_bind, hg']
      · rw [hnodes', hnodes, append_assoc]
        rfl

/-- What a document gives whose payloads can be read. -/
theorem ofValue_document {entries : Entries} {payloads edges : List Value} {nodes : List Node}
    {connections : List Connection} (hnodes : entries.get? "nodes" = some (.list payloads))
    (hedges : entries.get? "edges" = some (.list edges))
    (hread : Forall₂ (fun v n => Node.ofValue v = .ok n) payloads nodes)
    (hread' : Forall₂ (fun v c => Connection.ofValue v = .ok c) edges connections)
    (hids : (nodes.map (·.id)).Nodup) :
    ∃ g, ofValue (.dict entries) = .ok g ∧ g.nodes = nodes ∧ g.connections = connections := by
  obtain ⟨g, hg, hgnodes, -⟩ := foldlM_addPayload (g := empty) hread hids
  refine ⟨{ g with connections }, ?_, hgnodes, rfl⟩
  have hedges' : edges.mapM Connection.ofValue = .ok connections := mapM_eq_ok.mpr hread'
  have hplace : payloads.foldlM (fun (g : Snapshot) v => do g.addNode (← Node.ofValue v)) empty =
      .ok g := hg
  simp only [ofValue, Value.members, ok_bind, hnodes, hedges, Option.getD_some, Value.toList,
    Option.some_or, hplace, hedges']

/-! ## Snapshots of an editor -/

/-- The snapshots that an editor can come to from a document. -/
inductive Reachable : Snapshot → Prop
  | load {g : Snapshot} {payload : Value} (hpayload : payload.IsJson)
      (hload : ofValue payload = .ok g) : Reachable g
  | addNode {g g' : Snapshot} {payload : Value} {n : Node} (hg : Reachable g)
      (hpayload : payload.IsJson) (hnode : Node.ofValue payload = .ok n)
      (hadd : g.addNode n = .ok g') : Reachable g'
  | connect {g g' : Snapshot} {source sourcePort target targetPort : String} {id : Option String}
      {c : Connection} (hg : Reachable g)
      (hconnect : g.connect source sourcePort target targetPort ((id.map .text).getD .null) =
        .ok (g', c)) : Reachable g'
  | removeNode {g g' : Snapshot} {id : Value} {n : Node} (hg : Reachable g)
      (hremove : g.removeNode id = .ok (g', n)) : Reachable g'
  | removeConnection {g g' : Snapshot} {id : Value} {c : Connection} (hg : Reachable g)
      (hremove : g.removeConnection id = .ok (g', c)) : Reachable g'
  | setParam {g g' : Snapshot} {catalog : Catalog} {id name value stored : Value}
      (hg : Reachable g) (hset : g.setParam catalog id name value = .ok (g', stored)) :
      Reachable g'
  | refreshValidity {g : Snapshot} (catalog : Catalog) (hg : Reachable g) :
      Reachable (g.refreshValidity catalog).1

/-- All nodes and connections are laid out as a document lays them out. -/
structure Regular (g : Snapshot) : Prop where
  nodes : ∀ n ∈ g.nodes, n.Regular
  connections : ∀ c ∈ g.connections, c.Regular

theorem Regular.addNode {g g' : Snapshot} {n : Node} (hg : g.Regular) (hn : n.Regular)
    (h : g.addNode n = .ok g') : g'.Regular := by
  unfold Snapshot.addNode at h
  split at h
  · cases h
  · obtain rfl := Except.ok.inj h
    refine ⟨?_, hg.connections⟩
    simpa [forall_mem_append, or_imp, forall_and] using ⟨hg.nodes, hn⟩

theorem exists_orElse_text (id : Option String) {s : String} (h : s ≠ "") :
    ∃ t : String, ((id.map Value.text).getD .null).orElse (.text s) = .text t ∧ t ≠ "" := by
  rcases id with _ | t
  · exact ⟨s, rfl, h⟩
  · by_cases ht : t = ""
    · exact ⟨s, by simp [Value.orElse, Value.truthy, ht], h⟩
    · exact ⟨t, by simp [Value.orElse, Value.truthy, ht], ht⟩

theorem Regular.connect {g g' : Snapshot} {source sourcePort target targetPort : String}
    {id : Option String} {c : Connection} (hg : g.Regular)
    (h : g.connect source sourcePort target targetPort ((id.map .text).getD .null) =
      .ok (g', c)) : g'.Regular := by
  obtain ⟨s, -, h⟩ := bind_eq_ok.mp h
  obtain ⟨t, -, h⟩ := bind_eq_ok.mp h
  obtain ⟨rfl, rfl⟩ := Prod.mk.inj (Except.ok.inj h)
  refine ⟨hg.nodes, fun c hc => ?_⟩
  rcases mem_append.mp hc with hc | hc
  · exact hg.connections c hc
  · obtain rfl := mem_singleton.mp hc
    refine ⟨exists_orElse_text id (by simp [String.append_eq_empty_iff]), ⟨_, rfl⟩, ⟨_, rfl⟩,
      ⟨by simp, by simp⟩, by simp⟩

theorem Regular.removeNode {g g' : Snapshot} {id : Value} {n : Node} (hg : g.Regular)
    (h : g.removeNode id = .ok (g', n)) : g'.Regular := by
  obtain ⟨n, -, h⟩ := bind_eq_ok.mp h
  obtain ⟨rfl, rfl⟩ := Prod.mk.inj (Except.ok.inj h)
  exact ⟨fun m hm => hg.nodes m (mem_filter.mp hm).1,
    fun c hc => hg.connections c (mem_filter.mp hc).1⟩

theorem Regular.removeConnection {g g' : Snapshot} {id : Value} {c : Connection} (hg : g.Regular)
    (h : g.removeConnection id = .ok (g', c)) : g'.Regular := by
  unfold Snapshot.removeConnection at h
  split at h
  · obtain ⟨rfl, rfl⟩ := Prod.mk.inj (Except.ok.inj h)
    exact ⟨hg.nodes, fun c hc => hg.connections c (mem_of_mem_eraseP hc)⟩
  · cases h

theorem Regular.setParam {g g' : Snapshot} {catalog : Catalog} {id name value stored : Value}
    (hg : g.Regular) (h : g.setParam catalog id name value = .ok (g', stored)) : g'.Regular := by
  obtain ⟨n, -, h⟩ := bind_eq_ok.mp h
  obtain ⟨⟨changed, coerced⟩, -, h⟩ := bind_eq_ok.mp h
  obtain ⟨rfl, rfl⟩ := Prod.mk.inj (Except.ok.inj h)
  refine ⟨fun m' hm' => ?_, hg.connections⟩
  obtain ⟨m, hm, rfl⟩ := mem_map.mp hm'
  unfold withParams
  split
  · exact (hg.nodes m hm).withParams changed.params
  · exact hg.nodes m hm

theorem regular_refreshAll {g : Snapshot} {catalog : Catalog} {connections : List Connection}
    (h : ∀ c ∈ connections, c.Regular) :
    ∀ c ∈ (refreshAll catalog g connections).1, c.Regular := by
  induction connections with
  | nil => simp [refreshAll]
  | cons c rest ih =>
      obtain ⟨hc, hrest⟩ := forall_mem_cons.mp h
      unfold refreshAll
      split
      · exact h
      · exact forall_mem_cons.mpr ⟨⟨hc.id, hc.sourcePort, hc.targetPort, hc.named, hc.free⟩, ih hrest⟩

theorem IsJson.of_toList {v : Value} {items : List Value} (hv : v.IsJson)
    (h : v.toList = .ok items) : ∀ item ∈ items, item.IsJson := by
  cases hv with
  | list hitems =>
      obtain rfl := Except.ok.inj h
      exact hitems
  | text s =>
      obtain rfl := Except.ok.inj h
      simp [Value.IsJson.text]
  | dict hnamed hvalues =>
      obtain rfl := Except.ok.inj h
      simp only [Entries.keys, mem_map]
      rintro _ ⟨e, he, rfl⟩
      obtain ⟨name, hname⟩ := hnamed.text e he
      exact hname ▸ .text name
  | _ => cases h

/-- The members of an optional entry of a document. -/
theorem IsJson.of_optional {value : Option Value} {items : List Value}
    (hvalue : ∀ v, value = some v → v.IsJson) (h : (value.getD (.tuple [])).toList = .ok items) :
    ∀ item ∈ items, item.IsJson := by
  cases value with
  | none =>
      obtain rfl := Except.ok.inj h
      simp
  | some v => exact IsJson.of_toList (hvalue v rfl) h

/-- Nodes placed from payloads are regular. The invariant carries the payloads placed so far, so that
each of them is known to be one of the document. -/
theorem regular_foldlM_addPayload {payloads : List Value} {g : Snapshot}
    (hpayloads : ∀ v ∈ payloads, v.IsJson) (h : payloads.foldlM addPayload empty = .ok g) :
    ∀ n ∈ g.nodes, n.Regular := by
  have hrun : (∀ v ∈ payloads, v.IsJson) → g.Regular := by
    refine foldlM_induction (P := fun done g => (∀ v ∈ done, v.IsJson) → g.Regular) ?_ ?_ h
    · intro done v g g' hg hstep hdone
      obtain ⟨n, hn, hadd⟩ := bind_eq_ok.mp hstep
      rw [forall_mem_append, forall_mem_singleton] at hdone
      exact (hg hdone.1).addNode (Node.regular_of_ofValue hdone.2 hn) hadd
    · exact fun _ => ⟨by simp [empty], by simp [empty]⟩
  exact (hrun hpayloads).nodes

theorem Regular.load {g : Snapshot} {payload : Value} (hpayload : payload.IsJson)
    (h : ofValue payload = .ok g) : g.Regular := by
  obtain ⟨found, hentries, h⟩ := bind_eq_ok.mp h
  obtain ⟨payloads, hpayloads, h⟩ := bind_eq_ok.mp h
  obtain ⟨g₀, hplace, h⟩ := bind_eq_ok.mp h
  obtain ⟨edges, hedges, h⟩ := bind_eq_ok.mp h
  obtain ⟨connections, hconnections, h⟩ := bind_eq_ok.mp h
  obtain rfl := Except.ok.inj h
  cases hpayload with
  | @dict entries hnamed hvalues =>
      obtain rfl := Except.ok.inj hentries
      have hjson : ∀ (name : String) (v : Value), Entries.get? entries name = some v → v.IsJson :=
        fun name v hv => hvalues _ (mem_of_get? hv)
      have hpayloads := IsJson.of_optional (hjson "nodes") hpayloads
      have hedges : ∀ v ∈ edges, v.IsJson := by
        refine IsJson.of_optional (fun v hv => ?_) hedges
        rcases Option.or_eq_some_iff.mp hv with hv | ⟨-, hv⟩
        · exact hjson "edges" v hv
        · exact hjson "connections" v hv
      have hnodes : ∀ n ∈ g₀.nodes, n.Regular := regular_foldlM_addPayload hpayloads hplace
      refine ⟨hnodes, fun c hc => ?_⟩
      obtain ⟨v, hv, hc⟩ := exists_of_mem_mapM hconnections hc
      exact Connection.regular_of_ofValue (hedges v hv) hc
  | _ => cases hentries

/-- Every snapshot of an editor is regular. -/
theorem Reachable.regular {g : Snapshot} (h : g.Reachable) : g.Regular := by
  induction h with
  | load hpayload hload => exact .load hpayload hload
  | addNode _ hpayload hnode hadd ih => exact ih.addNode (Node.regular_of_ofValue hpayload hnode) hadd
  | connect _ hconnect ih => exact ih.connect hconnect
  | removeNode _ hremove ih => exact ih.removeNode hremove
  | removeConnection _ hremove ih => exact ih.removeConnection hremove
  | setParam _ hset ih => exact ih.setParam hset
  | refreshValidity catalog _ ih => exact ⟨ih.nodes, regular_refreshAll ih.connections⟩

/-! ## Reading back -/

/-- The snapshot as a document keeps it. -/
def saved (g : Snapshot) : Snapshot := { g with connections := g.connections.map Connection.saved }

variable {g : Snapshot}

theorem Regular.ofValue_toValue (h : g.Regular) : ofValue g.toValue = .ok g.saved := by
  have hread : Forall₂ (fun v n => Node.ofValue v = .ok n) (g.nodes.map Node.toValue) g.nodes := by
    rw [forall₂_map_left_iff, forall₂_same]
    exact fun n hn => (h.nodes n hn).ofValue_toValue
  have hread' : Forall₂ (fun v c => Connection.ofValue v = .ok c)
      (g.connections.map Connection.toValue) g.saved.connections := by
    rw [saved, forall₂_map_left_iff, forall₂_map_right_iff, forall₂_same]
    exact fun c hc => (h.connections c hc).ofValue_toValue
  have hentries : ∀ nodes edges : Value,
      Entries.get? [(.text "nodes", nodes), (.text "edges", edges)] "nodes" = some nodes ∧
        Entries.get? [(.text "nodes", nodes), (.text "edges", edges)] "edges" = some edges := by
    simp
  obtain ⟨⟨nodes, connections, nodup⟩, hg, hnodes, hconnections⟩ :=
    ofValue_document (hentries _ _).1 (hentries _ _).2 hread hread' g.nodup
  cases hnodes
  cases hconnections
  exact hg

theorem Regular.toValue_saved (h : g.Regular) : g.saved.toValue = g.toValue := by
  have hsame : g.saved.connections.map Connection.toValue =
      g.connections.map Connection.toValue := by
    rw [saved, List.map_map]
    exact map_congr_left fun c hc => (h.connections c hc).toValue_saved
  rw [toValue, hsame, saved, toValue]

theorem validateGraph_saved (catalog : Catalog) (g : Snapshot) :
    validateGraph catalog g.saved.graph = validateGraph catalog g.graph := by
  have hissue : connectionIssue catalog g.nodes ∘ Connection.saved =
      connectionIssue catalog g.nodes := rfl
  rw [validateGraph, validateGraph, graph, graph, saved, mapM_map, hissue]

theorem coincide_saved (catalog : Catalog) (g : Snapshot) :
    Compilation.Coincide catalog g.graph g.saved.graph :=
  .map_connections catalog g.nodes g.connections
    ⟨fun _ => rfl, fun _ => rfl, fun _ => rfl, fun _ => rfl⟩

/-- A snapshot of an editor is read back from its document. The document of what is read, its nodes
and its connections but for their errors are the same, and it is checked and compiled as before. -/
theorem Reachable.reload (h : g.Reachable) : ∃ g', ofValue g.toValue = .ok g' ∧
    g'.toValue = g.toValue ∧ g'.nodes = g.nodes ∧
    Forall₂ (fun c c' => ∃ error, c' = { c with error }) g.connections g'.connections ∧
    (∀ catalog, validateGraph catalog g'.graph = validateGraph catalog g.graph) ∧
    ∀ (α : Type) [Scalar α] (catalog : Catalog) (seed : Value) (input : Option InputSpec),
      compile (α := α) catalog seed g'.graph input = compile catalog seed g.graph input := by
  have hregular : g.Regular := h.regular
  refine ⟨g.saved, hregular.ofValue_toValue, hregular.toValue_saved, rfl, ?_, ?_, ?_⟩
  · rw [saved, forall₂_map_right_iff, forall₂_same]
    exact fun c _ => ⟨_, rfl⟩
  · exact fun catalog => validateGraph_saved catalog g
  · intro α _ catalog seed input
    exact (coincide_saved catalog g).compile_eq (length_map _) seed input

/-! ### A stale error -/

/-- A document in both forms, with further entries, and an error beside no verdict. -/
def staleDocument : Value :=
  .dict [(.text "nodes", .list [
      .dict [(.text "id", .text "in"), (.text "width", .int 120), (.text "data", .dict [
        (.text "blockType", .text "DataLoader"), (.text "note", .text "first"),
        (.text "parameters", .dict [(.text "dataset", .text "iris")])])],
      .dict [(.text "id", .text "out"), (.text "block_type", .text "Dense")]]),
    (.text "connections", .list [
      .dict [(.text "source", .text "in"), (.text "sourceHandle", .text "data"),
        (.text "target", .text "out"), (.text "targetHandle", .text "input"),
        (.text "data", .dict [(.text "error", .text "stale")])]])]

/-- The snapshot of the document after a parameter was set and a connection was added. -/
def stale : Outcome Snapshot := do
  let g ← ofValue staleDocument
  let (g, _) ← g.setParam Stock.catalog "out" "units" (.int 3)
  let (g, _) ← g.connect "in" "labels" "out" "input" .null
  .ok g

theorem reload_stale : ∃ g, stale = .ok g ∧ g.Reachable ∧ ∃ g', ofValue g.toValue = .ok g' ∧
    g'.toValue = g.toValue ∧ g'.nodes = g.nodes ∧
    Forall₂ (fun c c' => ∃ error, c' = { c with error }) g.connections g'.connections ∧
    (∀ catalog, validateGraph catalog g'.graph = validateGraph catalog g.graph) ∧
    ∀ (α : Type) [Scalar α] (catalog : Catalog) (seed : Value) (input : Option InputSpec),
      compile (α := α) catalog seed g'.graph input = compile catalog seed g.graph input := by
  have hjson : staleDocument.IsJson := by simp [staleDocument]
  have hrun : stale.toOption.isSome = true := by decide +kernel
  obtain ⟨g, hg⟩ := Option.isSome_iff_exists.mp hrun
  have hstale : stale = .ok g := toOption_eq_some.mp hg
  obtain ⟨g₁, hload, h⟩ := bind_eq_ok.mp hstale
  obtain ⟨⟨g₂, stored⟩, hset, h⟩ := bind_eq_ok.mp h
  obtain ⟨⟨g₃, c⟩, hconnect, h⟩ := bind_eq_ok.mp h
  obtain rfl := Except.ok.inj h
  have hconnect : g₂.connect "in" "labels" "out" "input" (((none : Option String).map .text).getD
      .null) = .ok (g₃, c) := hconnect
  have hreachable : g₃.Reachable := .connect (.setParam (.load hjson hload) hset) hconnect
  exact ⟨g₃, hstale, hreachable, hreachable.reload⟩

end Snapshot

end BlockNet
