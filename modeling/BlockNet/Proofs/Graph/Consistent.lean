import BlockNet.Proofs.Graph.Canvas

/-! # Consistent canvases

Whatever calls are made, nodes stand under their ids and connections join nodes that are there. A call
that fails has changed nothing, and a node is removed with the connections at it and nothing else. -/

namespace BlockNet

open List

/-- Does an id stand at both ends of a connection? -/
def Connection.loopsAt (c : Connection) (id : Value) : Bool :=
  id.equal false c.source && id.equal false c.target

/-- Is a call a refresh? -/
def Edit.refreshes : Edit → Bool
  | .refreshValidity _ => true
  | _ => false

/-- Nothing but the remembered verdict of a connection has changed. -/
def Connection.Judged (c fresh : Connection) : Prop :=
  fresh = { c with isValid := fresh.isValid, error := fresh.error }

/-- Every id stands once and over its own node, and connections join nodes that are there. -/
structure Canvas.Consistent (s : Canvas) : Prop where
  nodup : (s.nodes.map (·.1)).Nodup
  keyed : ∀ e ∈ s.nodes, e.1 = e.2.id
  joined : ∀ c ∈ s.connections, c.source ∈ s.nodes.map (·.1) ∧ c.target ∈ s.nodes.map (·.1)

namespace Snapshot

variable {g : Snapshot}

/-! ## Closed snapshots -/

/-- Connections join nodes that are there. -/
def Closed (g : Snapshot) : Prop :=
  ∀ c ∈ g.connections, c.source ∈ g.nodes.map (·.id) ∧ c.target ∈ g.nodes.map (·.id)

theorem Closed.mono {g' : Snapshot} (hg : g.Closed)
    (hids : ∀ id ∈ g.nodes.map (·.id), id ∈ g'.nodes.map (·.id))
    (hconnections : ∀ c ∈ g'.connections, c ∈ g.connections) : g'.Closed := fun c hc =>
  (hg c (hconnections c hc)).imp (hids c.source) (hids c.target)

theorem Closed.withNode {n : Node} (hg : g.Closed) : (g.keep (g.withNode n)).2.Closed := by
  refine keep_of hg fun g' m h => ?_
  obtain ⟨hnodes, hconnections⟩ := withNode_eq_ok h
  refine hg.mono (fun id hid => ?_) fun c hc => hconnections ▸ hc
  rw [hnodes, map_append]
  exact mem_append_left _ hid

theorem placed_eq_ok {id : Value} {name : String} (h : g.placed id = .ok name) :
    name ∈ g.nodes.map (·.id) := by
  rcases lookup_cases g id with ⟨n, hn, rfl⟩ | ⟨hnode, -⟩ | ⟨hnode, -⟩
  · rw [placed_of_mem hn] at h
    exact Except.ok.inj h ▸ mem_map_of_mem hn
  · rw [placed, hnode] at h
    cases h
  · rw [placed, hnode] at h
    cases h

theorem Closed.connect {source sourcePort target targetPort id : Value} (hg : g.Closed) :
    (g.keep (g.connect source sourcePort target targetPort id)).2.Closed := by
  refine keep_of hg fun g' made h => ?_
  obtain ⟨hsource, htarget, -, hnodes, hconnections⟩ := connect_eq_ok h
  intro c hc
  rw [hnodes]
  rw [hconnections] at hc
  rcases mem_append.mp hc with hc | hc
  · exact hg c hc
  · obtain rfl := mem_singleton.mp hc
    exact ⟨placed_eq_ok hsource, placed_eq_ok htarget⟩

/-- A connection that is kept does not touch the node that goes, so its ends stay. -/
theorem Closed.removeNode {id : Value} (hg : g.Closed) : (g.keep (g.removeNode id)).2.Closed := by
  refine keep_of hg fun g' n h => ?_
  obtain ⟨hnodes, hconnections⟩ := removeNode_eq_ok h
  intro c hc
  rw [hconnections] at hc
  obtain ⟨hc, htouch⟩ := mem_filter.mp hc
  obtain ⟨hsource, htarget⟩ : c.source ≠ n.id ∧ c.target ≠ n.id := by
    simpa [Connection.touches] using htouch
  have hkept : ∀ name ∈ g.nodes.map (·.id), name ≠ n.id → name ∈ g'.nodes.map (·.id) := by
    rintro _ hname hne
    obtain ⟨k, hk, rfl⟩ := mem_map.mp hname
    rw [hnodes]
    exact mem_map_of_mem (mem_filter.mpr ⟨hk, by simpa using hne⟩)
  exact ⟨hkept _ (hg c hc).1 hsource, hkept _ (hg c hc).2 htarget⟩

theorem Closed.removeConnection {id : Value} (hg : g.Closed) :
    (g.keep (g.removeConnection id)).2.Closed := by
  refine keep_of hg fun g' c h => ?_
  obtain ⟨hnodes, hconnections⟩ := removeConnection_eq_ok h
  exact hg.mono (fun id hid => hnodes ▸ hid) fun d hd => hconnections.subset hd

theorem Closed.setParam {catalog : Catalog} {id name value : Value} (hg : g.Closed) :
    (g.keep (g.setParam catalog id name value)).2.Closed := by
  refine keep_of hg fun g' stored h => ?_
  obtain ⟨hids, hconnections⟩ := setParam_eq_ok h
  exact hg.mono (fun id hid => hids ▸ hid) fun c hc => hconnections ▸ hc

/-- A refresh writes verdicts, also if it fails on the way. -/
theorem judged_refreshAll (catalog : Catalog) (g : Snapshot) (connections : List Connection) :
    Forall₂ Connection.Judged connections (refreshAll catalog g connections).1 := by
  induction connections with
  | nil => exact .nil
  | cons c rest ih =>
      rw [refreshAll]
      cases verdictOn catalog g c with
      | error fault => exact forall₂_same.mpr fun _ _ => rfl
      | ok verdict => exact .cons rfl ih

theorem forall_judged (joined : String → String → Prop) {connections fresh : List Connection}
    (h : Forall₂ Connection.Judged connections fresh)
    (hjoined : ∀ c ∈ connections, joined c.source c.target) :
    ∀ c ∈ fresh, joined c.source c.target := by
  induction h with
  | nil => exact hjoined
  | cons hc _ ih =>
      obtain ⟨hhead, hrest⟩ := forall_mem_cons.mp hjoined
      refine forall_mem_cons.mpr ⟨?_, ih hrest⟩
      rw [hc]
      exact hhead

theorem Closed.refreshValidity {catalog : Catalog} (hg : g.Closed) :
    (g.refreshValidity catalog).1.Closed :=
  forall_judged (fun source target => source ∈ g.nodes.map Node.id ∧ target ∈ g.nodes.map Node.id)
    (judged_refreshAll catalog g g.connections) hg

/-- No call leaves a connection without its nodes. -/
theorem Closed.edit (hg : g.Closed) (e : Edit) : (g.edit e).2.Closed := by
  cases e with
  | place payload =>
      rw [Snapshot.edit]
      cases Node.ofValue payload with
      | error fault => exact hg
      | ok n => exact hg.withNode
  | addNode n => exact hg.withNode
  | connect source sourcePort target targetPort id => exact hg.connect
  | removeNode id => exact hg.removeNode
  | removeConnection id => exact hg.removeConnection
  | setParam catalog id name value => exact hg.setParam
  | refreshValidity catalog => exact hg.refreshValidity

theorem closed_after (edits : List Edit) : (after edits).Closed := by
  have hrun : ∀ g : Snapshot, g.Closed → (edits.foldl (fun g e => (g.edit e).2) g).Closed := by
    induction edits with
    | nil => exact fun g hg => hg
    | cons e rest ih => exact fun g hg => ih _ (hg.edit e)
  exact hrun empty nofun

/-! ## Failing calls -/

/-- A call that fails, but for a refresh, leaves the snapshot. -/
theorem edit_error {e : Edit} {fault : Fault} (he : e.refreshes = false)
    (h : (g.edit e).1 = .error fault) : (g.edit e).2 = g := by
  cases e with
  | refreshValidity catalog => cases he
  | _ => exact keep_error h

/-! ## Connections at an id -/

/-- The connections into an id and those out of it are those at it, with loops twice. -/
theorem incoming_append_outgoing (g : Snapshot) (id : Value) : g.incoming id ++ g.outgoing id ~
    g.connections.filter (·.meets id) ++ g.connections.filter (·.loopsAt id) := by
  rw [incoming, outgoing]
  induction g.connections with
  | nil => exact .refl _
  | cons c rest ih =>
      simp only [filter_cons, Connection.meets, Connection.loopsAt]
      cases id.equal false c.source with
      | false =>
          cases id.equal false c.target with
          | false => exact ih
          | true => exact ih.cons c
      | true =>
          cases id.equal false c.target with
          | false => exact perm_middle.trans (ih.cons c)
          | true => exact ((perm_middle.trans (ih.cons c)).trans perm_middle.symm).cons c

end Snapshot

namespace Canvas

/-! ## Removed nodes -/

variable {g : Snapshot} {n : Node}

/-- The place of a node under a key that stands once. -/
theorem eraseP_middle {key : String} {front back : List (String × Node)}
    (h : ((front ++ (key, n) :: back).map (·.1)).Nodup) :
    (front ++ (key, n) :: back).eraseP (·.1 == key) = front ++ back := by
  rw [map_append, map_cons, nodup_middle, nodup_cons, mem_append, not_or] at h
  have hfront : ∀ e ∈ front, ¬(e.1 == key) = true := fun e he hkey =>
    h.1.1 (mem_map.mpr ⟨e, he, eq_of_beq hkey⟩)
  rw [eraseP_append_right _ hfront, eraseP_cons_of_pos (by simp)]

theorem keys_canvas (g : Snapshot) : g.canvas.nodes.map (·.1) = g.nodes.map (·.id) := by
  rw [Snapshot.canvas, map_map]
  rfl

theorem mem_of_split {front back : List (String × Node)}
    (h : g.canvas.nodes = front ++ (n.id, n) :: back) : n ∈ g.nodes := by
  have hmem : (n.id, n) ∈ g.canvas.nodes := h ▸ mem_append_right _ mem_cons_self
  obtain ⟨m, hm, heq⟩ := mem_map.mp hmem
  exact (Prod.mk.inj heq).2 ▸ hm

/-- What is left when a node goes stands around it. -/
theorem filter_eq_append {front back : List (String × Node)}
    (h : g.canvas.nodes = front ++ (n.id, n) :: back) :
    (g.nodes.filter (·.id != n.id)).map (fun m => (m.id, m)) = front ++ back := by
  have hnodup : (g.canvas.nodes.map (·.1)).Nodup := keys_canvas g ▸ g.nodup
  rw [← Snapshot.eraseP_canvas (mem_of_split h), h]
  exact eraseP_middle (h ▸ hnodup)

/-- A node is removed just where it stands under its id, with the connections that touch it. -/
theorem removeNode_iff {id : Value} {s : Canvas} : (removeNode id).run g.canvas = (.ok n, s) ↔
    id = .text n.id ∧ ∃ front back, g.canvas.nodes = front ++ (n.id, n) :: back ∧
      s = ⟨front ++ back, g.canvas.connections.filter (!·.touches n.id)⟩ := by
  rw [Snapshot.removeNode_steps]
  constructor
  · intro h
    rcases Snapshot.lookup_cases g id with ⟨m, hm, rfl⟩ | ⟨hnode, -⟩ | ⟨hnode, -⟩
    · rw [Snapshot.removeNode, Snapshot.node_of_mem hm, ok_bind] at h
      obtain ⟨hok, rfl⟩ := Prod.mk.inj h
      obtain rfl := Except.ok.inj hok
      obtain ⟨front, back, hsplit, -, -⟩ := Snapshot.split_nodes hm
      have hcanvas : g.canvas.nodes = front.map (fun m => (m.id, m)) ++ (m.id, m) ::
          back.map fun m => (m.id, m) := by
        rw [Snapshot.canvas, hsplit, map_append, map_cons]
      refine ⟨rfl, _, _, hcanvas, ?_⟩
      rw [← filter_eq_append hcanvas]
      rfl
    · rw [Snapshot.removeNode, hnode] at h
      cases congrArg Prod.fst h
    · rw [Snapshot.removeNode, hnode] at h
      cases congrArg Prod.fst h
  · rintro ⟨rfl, front, back, hsplit, rfl⟩
    rw [Snapshot.removeNode, Snapshot.node_of_mem (mem_of_split hsplit), ok_bind,
      ← filter_eq_append hsplit]
    rfl

/-! ## Reachable canvases -/

theorem consistent_canvas (hg : g.Closed) : g.canvas.Consistent where
  nodup := keys_canvas g ▸ g.nodup
  keyed := by
    intro e he
    obtain ⟨m, -, rfl⟩ := mem_map.mp he
    rfl
  joined := by
    rw [keys_canvas]
    exact hg

/-- After any calls the canvas is the one of the snapshot, every id stands once and over its own node,
and connections join nodes that are there. The connections into an id and out of it are those at it, with
loops twice. A call that fails leaves the canvas, and a refresh, even if it fails, changes nothing but
what connections remember. A node is removed just where it stands, with the connections that touch it,
and everything else is kept in its order. -/
theorem after_consistent (edits : List Edit) :
    after edits = (Snapshot.after edits).canvas ∧ (after edits).Consistent ∧
    (∀ id, (Snapshot.after edits).incoming id ++ (Snapshot.after edits).outgoing id ~
      (after edits).connections.filter (·.meets id) ++
        (after edits).connections.filter (·.loopsAt id)) ∧
    (∀ e fault s, e.refreshes = false → (steps e).run (after edits) = (.error fault, s) →
      s = after edits) ∧
    (∀ catalog answer s, (refreshValidity catalog).run (after edits) = (answer, s) →
      s.nodes = (after edits).nodes ∧
        Forall₂ Connection.Judged (after edits).connections s.connections) ∧
    ∀ id n s, (removeNode id).run (after edits) = (.ok n, s) ↔
      id = .text n.id ∧ ∃ front back, (after edits).nodes = front ++ (n.id, n) :: back ∧
        s = ⟨front ++ back, (after edits).connections.filter (!·.touches n.id)⟩ := by
  rw [after_eq]
  refine ⟨rfl, consistent_canvas (Snapshot.closed_after edits),
    (Snapshot.after edits).incoming_append_outgoing, fun e fault s he h => ?_,
    fun catalog answer s h => ?_, fun id n s => removeNode_iff⟩
  · rw [Snapshot.steps_eq] at h
    obtain ⟨hfault, rfl⟩ := Prod.mk.inj h
    rw [Snapshot.edit_error he hfault]
  · rw [Snapshot.refreshValidity_steps] at h
    obtain ⟨-, rfl⟩ := Prod.mk.inj h
    exact ⟨rfl, Snapshot.judged_refreshAll catalog _ _⟩

end Canvas

end BlockNet
