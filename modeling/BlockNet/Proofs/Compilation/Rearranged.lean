import BlockNet.Proofs.Compilation.Cycle
import BlockNet.Proofs.Compilation.Permuted
import Mathlib.Data.List.Find

/-! # Rearranged graphs

A graph without cycles compiles to the same model however its nodes and connections are listed, as
long as data sources keep their order among themselves, and so do the connections into each node. -/

namespace BlockNet

open List Relation

/-- The data sources among nodes. -/
def dataSources (nodes : List Node) : List Node := nodes.filter (·.blockType == "DataLoader")

/-- Another listing of a graph, in which sources may be marked otherwise. -/
structure Graph.Rearranged (g g' : Graph) : Prop where
  nodes : g.nodes.map Node.unmarked ~ g'.nodes.map Node.unmarked
  sources : (dataSources g.nodes).map Node.unmarked = (dataSources g'.nodes).map Node.unmarked
  connections : g.connections ~ g'.connections
  into : ∀ id, g.connections.filter (·.target == id) = g'.connections.filter (·.target == id)

/-- Two models with the same layers but for their order and the values of their weights, the same
skipped nodes and the same outside feeds. -/
structure Model.Same {α : Type} (m m' : Model α) : Prop where
  layers : m.layers.map Layer.form ~ m'.layers.map Layer.form
  skipped : m.skippedNodes ~ m'.skippedNodes
  external : m.externalInputs ~ m'.externalInputs
  keys : (m.externalInputs.map (·.1)).Nodup
  input : m.inputShape = m'.inputShape
  dataset : m.dataset = m'.dataset
  connections : m.connectionCount = m'.connectionCount
  cyclic : m.cycleDetected = m'.cycleDetected

/-! ## Nodes without marks -/

theorem filter_unmarked (p : String → Bool) (nodes : List Node) :
    (nodes.map Node.unmarked).filter (fun n => p n.blockType) =
      (nodes.filter fun n => p n.blockType).map Node.unmarked := by
  rw [filter_map]
  rfl

theorem ids_unmarked (nodes : List Node) :
    (nodes.map Node.unmarked).map (·.id) = nodes.map (·.id) := by
  rw [List.map_map]
  rfl

namespace Graph.Rearranged

variable {g g' : Graph}

theorem ids (h : g.Rearranged g') : g.nodes.map (·.id) ~ g'.nodes.map (·.id) := by
  rw [← ids_unmarked g.nodes, ← ids_unmarked g'.nodes]
  exact h.nodes.map _

theorem distinct (h : g.Rearranged g') (hids : (g.nodes.map (·.id)).Nodup) :
    (g'.nodes.map (·.id)).Nodup :=
  h.ids.nodup_iff.mp hids

theorem undotted (h : g.Rearranged g') (hdots : ∀ n ∈ g.nodes, '.' ∉ n.id.toList) :
    ∀ n ∈ g'.nodes, '.' ∉ n.id.toList := by
  intro n' hn'
  obtain ⟨n, hn, hid⟩ := mem_map.mp (h.ids.symm.subset (mem_map_of_mem hn'))
  exact hid ▸ hdots n hn

theorem filter (h : g.Rearranged g') (p : String → Bool) :
    (g.nodes.filter fun n => p n.blockType).map Node.unmarked ~
      (g'.nodes.filter fun n => p n.blockType).map Node.unmarked := by
  rw [← filter_unmarked, ← filter_unmarked]
  exact h.nodes.filter _

theorem filter_ids (h : g.Rearranged g') (p : String → Bool) :
    (g.nodes.filter fun n => p n.blockType).map (·.id) ~
      (g'.nodes.filter fun n => p n.blockType).map (·.id) := by
  have hids := (h.filter p).map (·.id)
  rwa [ids_unmarked, ids_unmarked] at hids

end Graph.Rearranged

namespace Compilation

variable {g g' : Graph} (catalog : Catalog)

theorem unknownNodes_perm (h : g.Rearranged g') :
    (unknownNodes catalog g.nodes).map (·.id) ~ (unknownNodes catalog g'.nodes).map (·.id) :=
  h.filter_ids fun t => !catalog.contains t

theorem layerNodes_knownNodes (hids : (g.nodes.map (·.id)).Nodup) :
    layerNodes catalog (knownNodes catalog g.nodes) = g.nodes.filter fun n =>
      catalog.isComputational n.blockType && catalog.contains n.blockType := by
  rw [layerNodes, knownNodes_eq hids, filter_filter]

theorem layerNodes_perm (h : g.Rearranged g') (hids : (g.nodes.map (·.id)).Nodup) :
    (layerNodes catalog (knownNodes catalog g.nodes)).map (·.id) ~
      (layerNodes catalog (knownNodes catalog g'.nodes)).map (·.id) := by
  rw [layerNodes_knownNodes catalog hids, layerNodes_knownNodes catalog (h.distinct hids)]
  exact h.filter_ids fun t => catalog.isComputational t && catalog.contains t

theorem find?_unmarked (h : g.Rearranged g') (hids : (g.nodes.map (·.id)).Nodup) (id : String) :
    ((knownNodes catalog g.nodes).find? (·.id == id)).map Node.unmarked =
      ((knownNodes catalog g'.nodes).find? (·.id == id)).map Node.unmarked := by
  have hfind : ∀ nodes : List Node, (nodes.find? (·.id == id)).map Node.unmarked =
      (nodes.map Node.unmarked).find? (·.id == id) := by
    intro nodes
    rw [find?_map]
    rfl
  rw [knownNodes_eq hids, knownNodes_eq (h.distinct hids), hfind, hfind]
  refine find?_eq_find?_of_perm (h.filter catalog.contains) ?_
  rintro n ⟨hn, hid⟩ n' ⟨hn', hid'⟩
  have hnodup : (((g.nodes.filter fun n => catalog.contains n.blockType).map
      Node.unmarked).map (·.id)).Nodup := by
    rw [ids_unmarked]
    exact hids.sublist (filter_sublist.map _)
  exact inj_on_of_nodup_map hnodup hn hn' ((eq_of_beq hid).trans (eq_of_beq hid').symm)

theorem firstDataset_eq (h : g.Rearranged g') (hids : (g.nodes.map (·.id)).Nodup) :
    firstDataset catalog (knownNodes catalog g.nodes) =
      firstDataset catalog (knownNodes catalog g'.nodes) := by
  have hfind : ∀ nodes : List Node, ((nodes.filter fun n => catalog.contains n.blockType).find?
      (·.blockType == "DataLoader")).map Node.unmarked =
        ((dataSources nodes).map Node.unmarked).find? fun n => catalog.contains n.blockType := by
    intro nodes
    rw [find?_map, dataSources, find?_filter, find?_filter]
    congr 2
    funext n
    rw [decide_eq_decide]
    exact and_comm
  have hsame := hfind g.nodes
  rw [h.sources, ← hfind g'.nodes, ← knownNodes_eq hids, ← knownNodes_eq (h.distinct hids)] at hsame
  rw [firstDataset, firstDataset]
  cases hn : (knownNodes catalog g.nodes).find? (·.blockType == "DataLoader") with
  | none =>
      rw [hn] at hsame
      rw [Option.map_eq_none_iff.mp hsame.symm]
  | some n =>
      rw [hn] at hsame
      obtain ⟨n', hn', hunmarked⟩ := Option.map_eq_some_iff.mp hsame.symm
      obtain ⟨mark, rfl⟩ := Node.exists_mark hunmarked
      rw [hn']
      rfl

/-! ## The plan and the order -/

variable {catalog}

theorem Plan.like_of_rearranged (h : g.Rearranged g') (hids : (g.nodes.map (·.id)).Nodup)
    (input : TensorShape) :
    Plan.Like ⟨catalog, knownNodes catalog g.nodes, g.connections, input⟩
      ⟨catalog, knownNodes catalog g'.nodes, g'.connections, input⟩ := by
  have hnode := find?_unmarked catalog h hids
  refine ⟨rfl, rfl, fun id => (hnode id).symm, fun d n => ?_⟩
  have hknown : ∀ id, ((knownNodes catalog g'.nodes).find? (·.id == id)).isSome =
      ((knownNodes catalog g.nodes).find? (·.id == id)).isSome := by
    intro id
    rw [← Option.isSome_map, ← hnode id, Option.isSome_map]
  have hfilter : ∀ (known : List Node) (connections : List Connection),
      (connections.filter fun c => c.target == n.id && (known.find? (·.id == c.source)).isSome) =
        (connections.filter (·.target == n.id)).filter fun c =>
          (known.find? (·.id == c.source)).isSome := by
    intro known connections
    rw [filter_filter]
    exact filter_congr fun c _ => Bool.and_comm _ _
  rw [Plan.incoming, Plan.incoming]
  simp only [Plan.node?]
  rw [hfilter, hfilter, h.into]
  simp only [hknown]

theorem Plan.plain_of_undotted (htext : catalog.TextPorts) (hids : (g.nodes.map (·.id)).Nodup)
    (hdots : ∀ n ∈ g.nodes, '.' ∉ n.id.toList) (input : TensorShape) :
    Plan.Plain ⟨catalog, knownNodes catalog g.nodes, g.connections, input⟩ := by
  refine ⟨htext, fun n hn => hdots n ?_⟩
  have hn : n ∈ knownNodes catalog g.nodes := hn
  rw [knownNodes_eq hids] at hn
  exact (mem_filter.mp hn).1

/-- The connections between computational nodes are acyclic. -/
def Acyclic (catalog : Catalog) (g : Graph) : Prop :=
  ∀ id, ¬TransGen (Connected catalog g) id id

theorem connected_iff (h : g.Rearranged g') (hids : (g.nodes.map (·.id)).Nodup)
    {source target : String} :
    Connected catalog g source target ↔ Connected catalog g' source target := by
  have hends : ∀ id, (∃ n ∈ layerNodes catalog (knownNodes catalog g.nodes), n.id = id) ↔
      ∃ n ∈ layerNodes catalog (knownNodes catalog g'.nodes), n.id = id := by
    intro id
    rw [← mem_map, ← mem_map, (layerNodes_perm catalog h hids).mem_iff]
  simp only [Connected, hends, h.connections.mem_iff]

theorem Acyclic.rearranged (hacyclic : Acyclic catalog g) (h : g.Rearranged g')
    (hids : (g.nodes.map (·.id)).Nodup) : Acyclic catalog g' := by
  have hrel : Connected catalog g' = Connected catalog g := by
    funext source target
    exact propext (connected_iff h hids).symm
  rw [Acyclic, hrel]
  exact hacyclic

theorem acyclic_iff : Acyclic catalog g ↔ (scheduleFor catalog g).cycleDetected = false := by
  have hrel : Schedule.Joined ((layerNodes catalog (knownNodes catalog g.nodes)).map (·.id))
      (g.connections.map fun c => (c.source, c.target)) = Connected catalog g := by
    funext source target
    exact propext joined_iff_connected
  rw [Bool.eq_false_iff, scheduleFor, scheduleOf, ne_eq, Schedule.cycleDetected_ofGraph, hrel,
    not_exists, Acyclic]

/-- Without cycles the schedule places every node after those that feed it. -/
theorem Acyclic.ordered (hacyclic : Acyclic catalog g) (input : TensorShape) :
    Plan.Ordered ⟨catalog, knownNodes catalog g.nodes, g.connections, input⟩
      (scheduleFor catalog g).order := by
  have hmem : ∀ {id}, id ∈ (scheduleFor catalog g).order ↔
      id ∈ (layerNodes catalog (knownNodes catalog g.nodes)).map (·.id) := Schedule.mem_order
  refine ⟨Schedule.nodup_order _ _ _, ?_, ?_⟩
  · intro id hid
    obtain ⟨n, hn, rfl⟩ := mem_map.mp (hmem.mp hid)
    exact find?_isSome.mpr ⟨n, (mem_filter.mp hn).1, beq_self_eq_true _⟩
  · intro before id after hsplit n hn d c hc hsource
    obtain ⟨hc, hends⟩ := mem_filter.mp (mem_mergeSort.mp hc)
    rw [Bool.and_eq_true] at hends
    have htarget : c.target = id := (eq_of_beq hends.1).trans (Plan.node?_id hn)
    have hid : id ∈ (scheduleFor catalog g).order := hsplit ▸ mem_append_right _ mem_cons_self
    have hback : (scheduleFor catalog g).backEdges = [] := by
      simpa [Schedule.cycleDetected] using acyclic_iff.mp hacyclic
    have hlt : (scheduleFor catalog g).order.idxOf c.source <
        (scheduleFor catalog g).order.idxOf id := by
      refine Schedule.idxOf_lt_of_notMem_backEdges (e := (c.source, id)) ?_
        (hback ▸ not_mem_nil)
      refine Schedule.mem_inside.mpr ⟨mem_map.mpr ⟨c, hc, by rw [htarget]⟩, ?_, ?_⟩
      · exact hmem.mp hsource
      · exact hmem.mp hid
    have hsub : before ++ id :: after <+ (scheduleFor catalog g).order := by rw [hsplit]
    exact (mem_before_iff (Schedule.nodup_order _ _ _) hsub).mpr ⟨hsplit ▸ hsource, hlt⟩

/-! ## Models -/

variable {α : Type} [Scalar α]

omit [Scalar α] in
theorem orStop_twin {β : Type} (log log' : List LogEntry) (x : Outcome β) :
    Twin anyFault Eq (orStop log x) (orStop log' x) := by
  cases x with
  | error fault => exact .error trivial
  | ok b => exact .ok rfl

theorem run_twin (htext : catalog.TextPorts) (hids : (g.nodes.map (·.id)).Nodup)
    (hdots : ∀ n ∈ g.nodes, '.' ∉ n.id.toList) (hacyclic : Acyclic catalog g)
    (h : g.Rearranged g') (seed : Value) (input : Option InputSpec) :
    Twin anyFault (fun r r' : Model α × List LogEntry => r.1.Same r'.1)
      (run catalog seed g input) (run catalog seed g' input) := by
  have hnodes := layerNodes_perm catalog h hids
  have hacyclic' := hacyclic.rearranged h hids
  have hlength := hnodes.length_eq
  rw [length_map, length_map] at hlength
  rw [run, run, ← isEmpty_congr hlength, ← firstDataset_eq catalog h hids]
  split
  · exact .error trivial
  refine (orStop_twin _ _ _).bind ?_
  rintro dataset - rfl
  refine (orStop_twin _ _ _).bind ?_
  rintro shape - rfl
  refine (orStop_twin _ _ _).bind ?_
  rintro seed - rfl
  have hperm : (scheduleFor catalog g').order ~ (scheduleFor catalog g).order := by
    refine (perm_ext_iff_of_nodup (Schedule.nodup_order _ _ _) (Schedule.nodup_order _ _ _)).mpr ?_
    intro id
    exact Schedule.mem_order.trans (hnodes.symm.mem_iff.trans Schedule.mem_order.symm)
  refine (foldlM_place_twin (Plan.plain_of_undotted htext hids hdots _)
    (Plan.plain_of_undotted htext (h.distinct hids) (h.undotted hdots) _)
    (Plan.like_of_rearranged h hids shape) hperm (hacyclic.ordered shape)
    (hacyclic'.ordered shape) ⟨rfl, rfl⟩ ⟨rfl, rfl⟩ (unknownNodes_perm catalog h)).bind ?_
  intro p q hsame
  have hlayers := hsame.forms.length_eq
  simp only [Progress.ledger, length_map] at hlayers
  rw [isEmpty_congr hlayers]
  split
  · exact .error trivial
  · refine .ok ⟨hsame.forms, hsame.skipped, hsame.external, hsame.keys, rfl, rfl,
      h.connections.length_eq, ?_⟩
    exact (acyclic_iff.mp hacyclic).trans (acyclic_iff.mp hacyclic').symm

/-- A graph without cycles and a listing of it otherwise either both compile, to the same layers,
skipped nodes and outside feeds, or both do not. -/
theorem compile_rearranged (htext : catalog.TextPorts) (hids : (g.nodes.map (·.id)).Nodup)
    (hdots : ∀ n ∈ g.nodes, '.' ∉ n.id.toList) (hacyclic : Acyclic catalog g)
    (h : g.Rearranged g') (seed : Value) (input : Option InputSpec) :
    Twin anyFault (Model.Same (α := α)) (compile catalog seed g input).1
      (compile catalog seed g' input).1 := by
  have hrun := run_twin (α := α) htext hids hdots hacyclic h seed input
  rw [compile, compile]
  cases hg : run (α := α) catalog seed g input with
  | error s =>
      cases hg' : run (α := α) catalog seed g' input with
      | error s' => exact .error trivial
      | ok r =>
          rw [hg, hg'] at hrun
          cases hrun
  | ok r =>
      obtain ⟨r', hg', hsame⟩ := hrun.eq_ok hg
      rw [hg']
      exact .ok hsame

/-! ### A fork -/

/-- A node of a fork. -/
def forkNode (id blockType : String) (params : Entries) : Node :=
  ⟨id, blockType, params, .null, false, .null, []⟩

/-- A connection of a fork. -/
def forkEdge (source sourcePort target targetPort : String) : Connection :=
  ⟨.null, source, .text sourcePort, target, .text targetPort, .null, .null, []⟩

/-- A data source that feeds two layers, one of which feeds a third, and a node of an unknown
type. -/
def fork : Graph where
  nodes := [forkNode "data" "DataLoader" [(.text "dataset", .text "iris")],
    forkNode "left" "Dense" [(.text "units", .int 2)],
    forkNode "right" "Dense" [(.text "units", .int 2)], forkNode "tail" "Activation" [],
    forkNode "odd" "Odd" []]
  connections := [forkEdge "data" "data" "left" "input", forkEdge "data" "labels" "right" "input",
    forkEdge "left" "output" "tail" "input"]

/-- The fork listed otherwise, with a mark. -/
def forkRelisted : Graph where
  nodes := [forkNode "tail" "Activation" [], forkNode "odd" "Odd" [],
    { forkNode "right" "Dense" [(.text "units", .int 2)] with isSource := true },
    forkNode "data" "DataLoader" [(.text "dataset", .text "iris")],
    forkNode "left" "Dense" [(.text "units", .int 2)]]
  connections := [forkEdge "left" "output" "tail" "input",
    forkEdge "data" "labels" "right" "input", forkEdge "data" "data" "left" "input"]

theorem fork_rearranged : fork.Rearranged forkRelisted := by
  have hturn : ∀ {β : Type} (a b c d e : β), [a, b, c, d, e] ~ [d, e, c, a, b] := by
    intro β a b c d e
    have hback : [a, b] ++ [c] ~ [c] ++ [a, b] := perm_append_comm
    have hfront : [a, b, c] ++ [d, e] ~ [d, e] ++ [a, b, c] := perm_append_comm
    exact hfront.trans (hback.append_left [d, e])
  refine ⟨hturn _ _ _ _ _, rfl, (reverse_perm _).symm, fun id => ?_⟩
  by_cases hleft : id = "left"
  · subst hleft
    rfl
  by_cases hright : id = "right"
  · subst hright
    rfl
  have hleft : ("left" == id) = false := by simpa using fun h => hleft h.symm
  have hright : ("right" == id) = false := by simpa using fun h => hright h.symm
  simp [fork, forkRelisted, forkEdge, filter_cons, hleft, hright]

/-- The layers of a fork come in another order when it is listed otherwise. -/
theorem compile_fork :
    Acyclic Stock.catalog fork ∧ ∃ m m' : Model Float,
      (compile Stock.catalog (.int 0) fork none).1 = .ok m ∧
      (compile Stock.catalog (.int 0) forkRelisted none).1 = .ok m' ∧
      m.layers.map (·.id) = ["left", "tail", "right"] ∧
      m'.layers.map (·.id) = ["right", "left", "tail"] ∧ m.Same m' := by
  have hacyclic : Acyclic Stock.catalog fork := acyclic_iff.mpr (by decide +kernel)
  have hids : (fork.nodes.map (·.id)).Nodup := by decide
  have hdots : ∀ n ∈ fork.nodes, '.' ∉ n.id.toList := by
    have hall : ∀ id ∈ fork.nodes.map (·.id), '.' ∉ id.toList := by decide
    exact fun n hn => hall n.id (mem_map_of_mem hn)
  have htwin : Twin anyFault Model.Same (compile (α := Float) Stock.catalog (.int 0) fork none).1
      (compile Stock.catalog (.int 0) forkRelisted none).1 :=
    compile_rearranged Stock.textPorts hids hdots hacyclic fork_rearranged (.int 0) none
  have hrun : ((compile Stock.catalog (.int 0) fork none).1.toOption.map
      fun m : Model Float => m.layers.map (·.id)) = some ["left", "tail", "right"] := by
    decide +kernel
  have hrun' : ((compile Stock.catalog (.int 0) forkRelisted none).1.toOption.map
      fun m : Model Float => m.layers.map (·.id)) = some ["right", "left", "tail"] := by
    decide +kernel
  obtain ⟨m, hm, horder⟩ := Option.map_eq_some_iff.mp hrun
  obtain ⟨m', hm', horder'⟩ := Option.map_eq_some_iff.mp hrun'
  have hok := toOption_eq_some.mp hm
  obtain ⟨c, hok', hsame⟩ := htwin.eq_ok hok
  obtain rfl := Except.ok.inj (hok'.symm.trans (toOption_eq_some.mp hm'))
  exact ⟨hacyclic, m, c, hok, hok', horder, horder', hsame⟩

end Compilation

end BlockNet
