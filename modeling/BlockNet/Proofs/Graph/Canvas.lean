import BlockNet.Graph.Canvas
import BlockNet.Proofs.Graph.Assignment
import BlockNet.Proofs.Graph.Memo

/-! # Steps of calls

The canvas on which the steps of a call have run shows the snapshot that the call leaves, and the steps
fail where the call fails. So a call that fails on the way has not changed anything before. -/

namespace BlockNet

open List

/-! ## Nodes of a snapshot -/

namespace Snapshot

variable {g : Snapshot} {n : Node}

theorem node_of_mem (hn : n ∈ g.nodes) : g.node n.id = .ok n := by
  rw [node, node?_eq_some.mpr ⟨hn, rfl⟩]
  rfl

/-- A node of a snapshot stands between nodes of other ids. -/
theorem split_nodes (hn : n ∈ g.nodes) : ∃ front back, g.nodes = front ++ n :: back ∧
    (∀ m ∈ front, m.id ≠ n.id) ∧ ∀ m ∈ back, m.id ≠ n.id := by
  obtain ⟨front, back, hsplit⟩ := append_of_mem hn
  have hids := g.nodup
  rw [hsplit, map_append, map_cons, nodup_middle, nodup_cons, mem_append, not_or] at hids
  refine ⟨front, back, hsplit, fun m hm e => hids.1.1 ?_, fun m hm e => hids.1.2 ?_⟩
  · exact e ▸ mem_map_of_mem hm
  · exact e ▸ mem_map_of_mem hm

end Snapshot

/-! ## Steps -/

/-- The second of two computations starts where the first has come to, unless that failed. -/
theorem run_bind_eq {σ α β : Type} (x : ExceptT Fault (StateM σ) α)
    (f : α → ExceptT Fault (StateM σ) β) (s : σ) : (x >>= f).run s = match x.run s with
      | (.ok a, s') => (f a).run s'
      | (.error fault, s') => (.error fault, s') := by
  rw [ExceptT.run_bind]
  change StateT.bind x.run _ s = _
  simp only [StateT.bind]
  rcases x.run s with ⟨fault | a, s'⟩
  · rfl
  · rfl

namespace Node

/-- Storing a parameter changes nothing else of a node. -/
theorem setParam_form {catalog : Catalog} {n changed : Node} {name value stored : Value}
    (h : n.setParam catalog name value = .ok (changed, stored)) :
    changed = { n with params := changed.params } := by
  obtain ⟨d, -, h⟩ := bind_eq_ok.mp h
  obtain ⟨w, -, h⟩ := bind_eq_ok.mp h
  obtain ⟨rfl, -⟩ := Prod.mk.inj (Except.ok.inj h)
  rfl

end Node

/-! ## Keys of a canvas -/

namespace Snapshot

/-- The canvas that shows a snapshot. -/
def canvas (g : Snapshot) : Canvas := ⟨g.nodes.map fun n => (n.id, n), g.connections⟩

/-- What the steps of a call come to that gives a snapshot, or fails and leaves the one before. -/
def shows {β : Type} (g : Snapshot) : Outcome (Snapshot × β) → Outcome β × Canvas
  | .ok (changed, b) => (.ok b, changed.canvas)
  | .error fault => (.error fault, g.canvas)

variable {g : Snapshot} {n : Node} {id : Value}

theorem any_canvas (key : String) :
    g.canvas.nodes.any (·.1 == key) = g.nodes.any (·.id == key) := by
  rw [canvas, any_map]
  rfl

theorem node?_canvas (g : Snapshot) (key : String) : g.canvas.node? key = g.node? key := by
  rw [canvas, Canvas.node?, find?_map, Option.map_map, node?]
  exact Option.map_id_apply

theorem key?_of_mem (hn : n ∈ g.nodes) : g.canvas.key? n.id = .ok (some n.id) := by
  have hany : g.nodes.any (·.id == n.id) = true := any_eq_true.mpr ⟨n, hn, beq_self_eq_true _⟩
  rw [Canvas.key?, any_canvas, hany]
  rfl

/-- A node carries an id, or none does, or what is no key is refused. -/
theorem lookup_cases (g : Snapshot) (id : Value) : (∃ n ∈ g.nodes, id = .text n.id) ∨
    (g.node id = .error (.unknownNode id) ∧ g.canvas.key? id = .ok none) ∨
      (g.node id = mishap .wrongType ∧ g.canvas.key? id = mishap .wrongType) := by
  cases id with
  | text key =>
      cases hany : g.nodes.any (·.id == key) with
      | true =>
          obtain ⟨n, hn, hkey⟩ := any_eq_true.mp hany
          exact .inl ⟨n, hn, by rw [eq_of_beq hkey]⟩
      | false =>
          have hnone : g.node? key = none := find?_eq_none.mpr (by simpa using hany)
          refine .inr (.inl ⟨by rw [node, hnone]; rfl, ?_⟩)
          rw [Canvas.key?, any_canvas, hany]
          rfl
  | _ =>
      refine .inr ?_
      simp only [node, Canvas.key?]
      split
      · exact .inl ⟨rfl, rfl⟩
      · exact .inr ⟨rfl, rfl⟩

/-! ## Calls and their steps -/

open Canvas (store)

theorem store_of_notMem {key : String} {nodes : List (String × Node)}
    (h : ∀ e ∈ nodes, e.1 ≠ key) : store key n nodes = nodes ++ [(key, n)] := by
  induction nodes with
  | nil => rfl
  | cons e rest ih =>
      obtain ⟨he, hrest⟩ := forall_mem_cons.mp h
      rw [store, if_neg (by simpa using he), ih hrest, cons_append]

theorem store_middle {key : String} {m : Node} {front back : List (String × Node)}
    (h : ∀ e ∈ front, e.1 ≠ key) :
    store key n (front ++ (key, m) :: back) = front ++ (key, n) :: back := by
  induction front with
  | nil => simp [store]
  | cons e rest ih =>
      obtain ⟨he, hrest⟩ := forall_mem_cons.mp h
      rw [cons_append, store, if_neg (by simpa using he), ih hrest, cons_append]

/-- A node is placed at the end if its id is new, and refused otherwise. -/
theorem addNode_cases (g : Snapshot) (n : Node) :
    ((∃ m ∈ g.nodes, m.id = n.id) ∧ g.addNode n = .error (.duplicateNode n.id)) ∨
      ((∀ m ∈ g.nodes, m.id ≠ n.id) ∧ ∃ g', g.addNode n = .ok g' ∧
        g'.nodes = g.nodes ++ [n] ∧ g'.connections = g.connections) := by
  by_cases hany : g.nodes.any (·.id == n.id) = true
  · exact .inl ⟨by simpa using hany, dif_pos hany⟩
  · exact .inr ⟨by simpa using hany, _, dif_neg hany, rfl, rfl⟩

theorem addNode_steps (g : Snapshot) (n : Node) :
    (Canvas.addNode n).run g.canvas = g.shows (g.withNode n) := by
  have hrun : (Canvas.addNode n).run g.canvas =
      if g.canvas.nodes.any (·.1 == n.id) then (.error (.duplicateNode n.id), g.canvas)
      else (.ok n, { g.canvas with nodes := store n.id n g.canvas.nodes }) := by
    rw [Canvas.addNode, run_bind_eq]
    change (ite _ _ _ : Editing Node).run g.canvas = _
    split
    · rfl
    · rfl
  rw [hrun, any_canvas, withNode]
  rcases addNode_cases g n with ⟨hold, hadd⟩ | ⟨hnew, g', hadd, hnodes, hconnections⟩
  · rw [if_pos (by simpa using hold), hadd]
    rfl
  · have hkeys : ∀ e ∈ g.canvas.nodes, e.1 ≠ n.id := by simpa [canvas] using hnew
    rw [if_neg (by simpa using hnew), hadd, store_of_notMem hkeys]
    simp [ok_bind, shows, canvas, hnodes, hconnections]

theorem placed_of_mem (hn : n ∈ g.nodes) : g.placed n.id = .ok n.id := by
  rw [placed, node_of_mem hn]

theorem placed_canvas (g : Snapshot) (id : Value) : g.canvas.placed id = g.placed id := by
  rw [Canvas.placed]
  rcases lookup_cases g id with ⟨n, hn, rfl⟩ | ⟨hnode, hkey⟩ | ⟨hnode, hkey⟩
  · rw [key?_of_mem hn, placed_of_mem hn]
    rfl
  · rw [hkey, placed, hnode]
    rfl
  · rw [hkey, placed, hnode]
    rfl

theorem connect_steps (g : Snapshot) (source sourcePort target targetPort id : Value) :
    (Canvas.connect source sourcePort target targetPort id).run g.canvas =
      g.shows (g.connect source sourcePort target targetPort id) := by
  rw [Canvas.connect, connect, run_bind_eq]
  change ((liftM (g.canvas.placed source) : Editing String) >>= _).run g.canvas = _
  rw [run_lift_bind, placed_canvas]
  cases g.placed source with
  | error fault => rfl
  | ok start =>
      change ((liftM (g.canvas.placed target) : Editing String) >>= _).run g.canvas = _
      rw [run_lift_bind, placed_canvas, ok_bind]
      cases g.placed target with
      | error fault => rfl
      | ok stop => rfl

theorem pop_eq (id : Value) : (Canvas.pop id).run g.canvas = match g.canvas.key? id with
    | .ok none => (.ok none, g.canvas)
    | .ok (some key) => (.ok (g.canvas.node? key),
        { g.canvas with nodes := g.canvas.nodes.eraseP (·.1 == key) })
    | .error fault => (.error fault, g.canvas) := by
  rw [Canvas.pop, run_bind_eq]
  change ((liftM (g.canvas.key? id) : Editing (Option String)) >>= _).run g.canvas = _
  rw [run_lift_bind]
  cases g.canvas.key? id with
  | error fault => rfl
  | ok key? => cases key? <;> rfl

/-- The connections that touch a node are those that meet its id. -/
theorem meets_text (c : Connection) (id : String) : c.meets (.text id) = c.touches id := by
  rw [Connection.meets, Connection.touches, Value.equal, Value.equal, Bool.beq_comm (a := id),
    Bool.beq_comm (a := id)]

/-- To leave a node out is to keep those of other ids. -/
theorem filter_split {front back : List Node} (hfront : ∀ m ∈ front, m.id ≠ n.id)
    (hback : ∀ m ∈ back, m.id ≠ n.id) :
    (front ++ n :: back).filter (·.id != n.id) = front ++ back := by
  rw [filter_append, filter_cons_of_neg (by simp), filter_eq_self.mpr (by simpa using hfront),
    filter_eq_self.mpr (by simpa using hback)]

theorem eraseP_canvas (hn : n ∈ g.nodes) : g.canvas.nodes.eraseP (·.1 == n.id) =
    (g.nodes.filter (·.id != n.id)).map fun m => (m.id, m) := by
  obtain ⟨front, back, hsplit, hfront, hback⟩ := split_nodes hn
  rw [canvas, eraseP_map, hsplit, filter_split hfront hback,
    eraseP_append_right _ (by simpa using hfront), eraseP_cons_of_pos (by simp)]

theorem removeNode_steps (g : Snapshot) (id : Value) :
    (Canvas.removeNode id).run g.canvas = g.shows (g.removeNode id) := by
  rw [Canvas.removeNode, run_bind_eq, pop_eq, removeNode]
  rcases lookup_cases g id with ⟨n, hn, rfl⟩ | ⟨hnode, hkey⟩ | ⟨hnode, hkey⟩
  · have htouch : (fun c : Connection => !c.meets n.id) = fun c => !c.touches n.id :=
      funext fun c => by rw [meets_text]
    rw [key?_of_mem hn, node_of_mem hn]
    simp only [node?_canvas, node?_eq_some.mpr ⟨hn, rfl⟩, eraseP_canvas hn]
    change (Except.ok n, Canvas.mk _ (g.connections.filter fun c => !c.meets n.id)) = _
    rw [htouch]
    rfl
  · rw [hkey, hnode]
    rfl
  · rw [hkey, hnode]
    rfl

theorem removeConnection_steps (g : Snapshot) (id : Value) :
    (Canvas.removeConnection id).run g.canvas = g.shows (g.removeConnection id) := by
  rw [Canvas.removeConnection, run_bind_eq, removeConnection, eraseP_eq_eraseIdx]
  change (Canvas.removeAt id (g.connections.findIdx? (·.id.equal false id))).run g.canvas = _
  cases hindex : g.connections.findIdx? (·.id.equal false id) with
  | none =>
      rw [find?_eq_none.mpr (by simpa using findIdx?_eq_none_iff.mp hindex)]
      rfl
  | some i =>
      obtain ⟨hi, hid, hbefore⟩ := findIdx?_eq_some_iff_getElem.mp hindex
      have hfind : g.connections.find? (·.id.equal false id) = some g.connections[i] :=
        find?_eq_some_iff_getElem.mpr ⟨hid, i, hi, rfl, by simpa using hbefore⟩
      have hget : orMishap .badIndex g.connections[i]? = .ok g.connections[i] := by
        rw [getElem?_eq_getElem hi, orMishap]
      rw [Canvas.removeAt, run_bind_eq]
      change ((liftM (orMishap .badIndex g.connections[i]?) : Editing Connection) >>= _).run
        g.canvas = _
      rw [run_lift_bind, hget, hfind]
      rfl

theorem map_withParams {front back : List Node} (hfront : ∀ m ∈ front, m.id ≠ n.id)
    (hback : ∀ m ∈ back, m.id ≠ n.id) (params : Entries) :
    (front ++ n :: back).map (withParams n.id params) = front ++ { n with params } :: back := by
  have hother : ∀ nodes : List Node, (∀ m ∈ nodes, m.id ≠ n.id) →
      nodes.map (withParams n.id params) = nodes := fun nodes h =>
    (map_congr_left fun m hm => by rw [withParams, if_neg (by simpa using h m hm), id]).trans (map_id _)
  rw [map_append, map_cons, hother front hfront, hother back hback, withParams,
    if_pos (beq_self_eq_true _)]

theorem setParam_steps (g : Snapshot) (catalog : Catalog) (id name value : Value) :
    (Canvas.setParam catalog id name value).run g.canvas =
      g.shows (g.setParam catalog id name value) := by
  rw [Canvas.setParam, run_bind_eq, setParam]
  change ((liftM (g.canvas.key? id) : Editing (Option String)) >>= _).run g.canvas = _
  rw [run_lift_bind]
  rcases lookup_cases g id with ⟨n, hn, rfl⟩ | ⟨hnode, hkey⟩ | ⟨hnode, hkey⟩
  · obtain ⟨front, back, hsplit, hfront, hback⟩ := split_nodes hn
    rw [key?_of_mem hn, node_of_mem hn, ok_bind]
    have hnodes : g.canvas.nodes = (front.map fun m => (m.id, m)) ++ (n.id, n) ::
        back.map fun m => (m.id, m) := by
      rw [canvas, hsplit, map_append, map_cons]
    have hstore : ∀ m : Node, store n.id m g.canvas.nodes =
        (front.map fun m => (m.id, m)) ++ (n.id, m) :: back.map fun m => (m.id, m) := by
      intro m
      rw [hnodes, store_middle (by simpa using hfront)]
    simp only [Option.bind_some, node?_canvas, node?_eq_some.mpr ⟨hn, rfl⟩, Option.map_some,
      Node.assign_eq]
    cases hset : n.setParam catalog name value with
    | error fault =>
        change (Except.error fault, Canvas.mk (store n.id n g.canvas.nodes) g.connections) = _
        rw [hstore, ← hnodes]
        rfl
    | ok result =>
        obtain ⟨changed, answer⟩ := result
        change (Except.ok answer, Canvas.mk (store n.id changed g.canvas.nodes) g.connections) = _
        have hchanged := Node.setParam_form hset
        have hafter : (g.nodes.map (withParams n.id changed.params)).map (fun m => (m.id, m)) =
            store n.id changed g.canvas.nodes := by
          rw [hstore, hsplit, map_withParams hfront hback, ← hchanged, map_append, map_cons]
          rw [hchanged]
        rw [← hafter]
        rfl
  · rw [hkey, hnode]
    rfl
  · rw [hkey, hnode]
    rfl

/-! ## Refreshes -/

theorem verdictOn_canvas (catalog : Catalog) (connections : List Connection) (c : Connection) :
    { g.canvas with connections }.verdictOn catalog c = verdictOn catalog g c := by
  have hnode : ∀ key, { g.canvas with connections }.node? key = g.node? key := node?_canvas g
  cases hsource : g.node? c.source with
  | none => simp only [Canvas.verdictOn, verdictOn, hnode, hsource]
  | some source =>
      cases htarget : g.node? c.target with
      | none => simp only [Canvas.verdictOn, verdictOn, hnode, hsource, htarget]
      | some target => simp only [Canvas.verdictOn, verdictOn, hnode, hsource, htarget]

/-- A refresh has written the verdicts of the connections that it is done with, and has the others
ahead. -/
theorem refreshFrom_steps (catalog : Catalog) (done rest : List Connection) :
    (Canvas.refreshFrom catalog done rest).run { g.canvas with connections := done ++ rest } =
      ((refreshAll catalog g rest).2,
        { g.canvas with connections := done ++ (refreshAll catalog g rest).1 }) := by
  induction rest generalizing done with
  | nil => rfl
  | cons c rest ih =>
      rw [Canvas.refreshFrom, run_bind_eq, refreshAll]
      change ((liftM (Canvas.verdictOn catalog _ c) : Editing (Bool × Option String)) >>= _).run _ = _
      rw [run_lift_bind, verdictOn_canvas]
      cases verdictOn catalog g c with
      | error fault => rfl
      | ok verdict =>
          obtain ⟨valid, error⟩ := verdict
          have hrest := ih (done ++ [remember c (valid, error)])
          simp only [append_assoc, singleton_append] at hrest
          change (Canvas.refreshFrom catalog (done ++ [remember c (valid, error)]) rest >>= _).run
            { g.canvas with connections := done ++ remember c (valid, error) :: rest } = _
          rw [run_bind_eq, hrest]
          rcases refreshAll catalog g rest with ⟨fresh, fault | invalid⟩
          · cases valid <;> rfl
          · cases valid <;> rfl

theorem refreshValidity_steps (catalog : Catalog) :
    (Canvas.refreshValidity catalog).run g.canvas =
      ((g.refreshValidity catalog).2, (g.refreshValidity catalog).1.canvas) := by
  rw [Canvas.refreshValidity, run_bind_eq]
  exact refreshFrom_steps catalog [] g.connections

/-! ## What a call leaves -/

section Leaves

variable {g' : Snapshot} {β : Type}

/-- What holds before a call, and of what it gives if it succeeds, holds afterwards. -/
theorem keep_of {p : Snapshot → Prop} {made : Outcome (Snapshot × β)} (hg : p g)
    (h : ∀ changed b, made = .ok (changed, b) → p changed) : p (g.keep made).2 := by
  cases made with
  | error fault => exact hg
  | ok result => exact h result.1 result.2 rfl

theorem keep_error {made : Outcome (Snapshot × β)} {fault : Fault}
    (h : (g.keep made).1 = .error fault) : (g.keep made).2 = g := by
  cases made with
  | error _ => rfl
  | ok _ => cases h

theorem withNode_eq_ok {m : Node} (h : g.withNode n = .ok (g', m)) :
    g'.nodes = g.nodes ++ [n] ∧ g'.connections = g.connections := by
  obtain ⟨g₁, hadd, h⟩ := bind_eq_ok.mp h
  obtain ⟨rfl, -⟩ := Prod.mk.inj (Except.ok.inj h)
  rcases addNode_cases g n with ⟨-, hrefused⟩ | ⟨-, g₂, hplaced, hnodes, hconnections⟩
  · rw [hrefused] at hadd
    cases hadd
  · rw [hplaced] at hadd
    obtain rfl := Except.ok.inj hadd
    exact ⟨hnodes, hconnections⟩

theorem connect_eq_ok {source sourcePort target targetPort id : Value} {c : Connection}
    (h : g.connect source sourcePort target targetPort id = .ok (g', c)) :
    g.placed source = .ok c.source ∧ g.placed target = .ok c.target ∧
      c.id = id.orElse (.text ("c" ++ toString (g.connections.length + 1))) ∧
        g'.nodes = g.nodes ∧ g'.connections = g.connections ++ [c] := by
  obtain ⟨start, hstart, h⟩ := bind_eq_ok.mp h
  obtain ⟨stop, hstop, h⟩ := bind_eq_ok.mp h
  obtain ⟨rfl, rfl⟩ := Prod.mk.inj (Except.ok.inj h)
  exact ⟨hstart, hstop, rfl, rfl, rfl⟩

theorem removeNode_eq_ok {id : Value} {m : Node} (h : g.removeNode id = .ok (g', m)) :
    g'.nodes = g.nodes.filter (·.id != m.id) ∧
      g'.connections = g.connections.filter (!·.touches m.id) := by
  obtain ⟨found, -, h⟩ := bind_eq_ok.mp h
  obtain ⟨rfl, rfl⟩ := Prod.mk.inj (Except.ok.inj h)
  exact ⟨rfl, rfl⟩

theorem removeConnection_eq_ok {id : Value} {c : Connection}
    (h : g.removeConnection id = .ok (g', c)) :
    g'.nodes = g.nodes ∧ g'.connections <+ g.connections := by
  rw [removeConnection] at h
  split at h
  · obtain ⟨rfl, -⟩ := Prod.mk.inj (Except.ok.inj h)
    exact ⟨rfl, eraseP_sublist⟩
  · cases h

theorem setParam_eq_ok {catalog : Catalog} {id name value stored : Value}
    (h : g.setParam catalog id name value = .ok (g', stored)) :
    g'.nodes.map (·.id) = g.nodes.map (·.id) ∧ g'.connections = g.connections := by
  obtain ⟨m, -, h⟩ := bind_eq_ok.mp h
  obtain ⟨changed, -, h⟩ := bind_eq_ok.mp h
  obtain ⟨rfl, -⟩ := Prod.mk.inj (Except.ok.inj h)
  exact ⟨map_id_withParams _ _ _, rfl⟩

end Leaves

/-! ## Any call -/

variable {β : Type}

/-- Steps whose answer is not looked at. -/
theorem run_forget {op : Editing β} {made : Outcome (Snapshot × β)}
    (h : op.run g.canvas = g.shows made) :
    (do let _ ← op : Editing Unit).run g.canvas = ((g.keep made).1, (g.keep made).2.canvas) := by
  rw [run_bind_eq, h]
  cases made <;> rfl

/-- The steps of a call show the snapshot that the call leaves, and fail where it fails. -/
theorem steps_eq (g : Snapshot) (e : Edit) :
    (Canvas.steps e).run g.canvas = ((g.edit e).1, (g.edit e).2.canvas) := by
  cases e with
  | place payload =>
      rw [Canvas.steps, run_lift_bind]
      rw [edit]
      cases Node.ofValue payload with
      | error fault => rfl
      | ok n => exact run_forget (addNode_steps g n)
  | addNode n => exact run_forget (addNode_steps g n)
  | connect source sourcePort target targetPort id =>
      exact run_forget (connect_steps g source sourcePort target targetPort id)
  | removeNode id => exact run_forget (removeNode_steps g id)
  | removeConnection id => exact run_forget (removeConnection_steps g id)
  | setParam catalog id name value => exact run_forget (setParam_steps g catalog id name value)
  | refreshValidity catalog =>
      rw [Canvas.steps, run_bind_eq, refreshValidity_steps, edit]
      cases (g.refreshValidity catalog).2 <;> rfl

end Snapshot

/-- Calls and their steps come to the same. -/
theorem Canvas.after_eq (edits : List Edit) : after edits = (Snapshot.after edits).canvas := by
  have hrun : ∀ g : Snapshot, edits.foldl (fun s e => ((steps e).run s).2) g.canvas =
      (edits.foldl (fun g e => (g.edit e).2) g).canvas := by
    induction edits with
    | nil => exact fun g => rfl
    | cons e rest ih =>
        intro g
        rw [foldl_cons, foldl_cons, Snapshot.steps_eq]
        exact ih _
  exact hrun Snapshot.empty

end BlockNet
