import BlockNet.Proofs.Compilation.Agreement
import BlockNet.Proofs.Compilation.Wiring

/-! # Nodes that no layer reads

A loss or an optimizer is no layer and feeds none. Such a node is not seen by a compilation, wherever
it stands among the nodes and whatever is connected to it. -/

namespace BlockNet

open List

/-- The second list is the first with further members of a kind put in anywhere. -/
inductive Inserted {α : Type} (p : α → Prop) : List α → List α → Prop
  | nil : Inserted p [] []
  | keep {xs ys : List α} (a : α) (h : Inserted p xs ys) : Inserted p (a :: xs) (a :: ys)
  | insert {xs ys : List α} {a : α} (ha : p a) (h : Inserted p xs ys) : Inserted p xs (a :: ys)

/-- What is told from the other members alone is the same for both lists. -/
theorem Inserted.filter_eq {α : Type} {p : α → Prop} {xs ys : List α} (h : Inserted p xs ys)
    {q : α → Bool} (hq : ∀ a, p a → q a = false) : ys.filter q = xs.filter q := by
  induction h with
  | nil => rfl
  | keep a _ ih => simp [filter_cons, ih]
  | insert ha _ ih => simp [hq _ ha, ih]

/-- A graph with one more node, which is known, of a type that is no layer and no data source, under
an id from which nothing comes, and with any connections into it. -/
structure Graph.Bystander (g : Graph) (catalog : Catalog) (n : Node) (g' : Graph) : Prop where
  nodes : ∃ before after, g.nodes = before ++ after ∧ g'.nodes = before ++ n :: after
  connections : Inserted (·.target = n.id) g.connections g'.connections
  fresh : ∀ m ∈ g.nodes, m.id ≠ n.id
  unread : ∀ c ∈ g.connections, c.source ≠ n.id
  known : catalog.contains n.blockType = true
  noLayer : catalog.isComputational n.blockType = false
  noSource : n.blockType ≠ "DataLoader"

namespace Compilation

/-! ## The known nodes -/

theorem filter_putNode (p : String → Bool) (nodes : List Node) (n : Node) :
    (putNode nodes n).filter (p ·.id) =
      if p n.id then putNode (nodes.filter (p ·.id)) n else nodes.filter (p ·.id) := by
  induction nodes with
  | nil => cases h : p n.id <;> simp [putNode, h]
  | cons m nodes ih =>
      by_cases hid : m.id = n.id
      · cases h : p n.id <;> simp [putNode, hid, h]
      · cases h : p m.id <;> cases h' : p n.id <;> simp [putNode, hid, h, h', ih]

theorem filter_foldl_putNode (p : String → Bool) (nodes before : List Node) :
    (nodes.foldl putNode before).filter (p ·.id) =
      (nodes.filter (p ·.id)).foldl putNode (before.filter (p ·.id)) := by
  induction nodes generalizing before with
  | nil => rfl
  | cons n nodes ih =>
      rw [foldl_cons, ih, filter_putNode]
      cases h : p n.id <;> simp [h]

end Compilation

namespace Graph.Bystander

open Compilation

variable {catalog : Catalog} {n : Node} {g g' : Graph}

theorem filter_nodes (h : g.Bystander catalog n g') : g'.nodes.filter (·.id != n.id) = g.nodes := by
  obtain ⟨before, after, hg, hg'⟩ := h.nodes
  have hkeep : ∀ m ∈ g.nodes, (m.id != n.id) = true := fun m hm => by simpa using h.fresh m hm
  rw [← filter_eq_self.mpr hkeep, hg, hg']
  simp

theorem filter_knownNodes (h : g.Bystander catalog n g') :
    (knownNodes catalog g'.nodes).filter (·.id != n.id) = knownNodes catalog g.nodes := by
  rw [knownNodes, filter_foldl_putNode (· != n.id), filter_comm, h.filter_nodes]
  rfl

theorem eq_of_id (h : g.Bystander catalog n g') {m : Node} (hm : m ∈ g'.nodes)
    (hid : m.id = n.id) : m = n := by
  obtain ⟨before, after, hg, hg'⟩ := h.nodes
  have hfresh : ∀ m ∈ before ++ after, m.id ≠ n.id := hg ▸ h.fresh
  rw [hg'] at hm
  simp only [mem_append, mem_cons] at hm hfresh
  rcases hm with hm | rfl | hm
  · exact absurd hid (hfresh m (.inl hm))
  · rfl
  · exact absurd hid (hfresh m (.inr hm))

/-- What does not hold of the node is found among the known nodes as before. -/
theorem filter_known (h : g.Bystander catalog n g') {q : Node → Bool} (hq : q n = false) :
    (knownNodes catalog g'.nodes).filter q = (knownNodes catalog g.nodes).filter q := by
  rw [← h.filter_knownNodes, filter_filter]
  refine filter_congr fun m hm => ?_
  by_cases hid : m.id = n.id
  · rw [h.eq_of_id (mem_knownNodes hm) hid, hq]
    rfl
  · simp [hid]

theorem find?_known (h : g.Bystander catalog n g') {q : Node → Bool} (hq : q n = false) :
    (knownNodes catalog g'.nodes).find? q = (knownNodes catalog g.nodes).find? q := by
  rw [← head?_filter, ← head?_filter, h.filter_known hq]

/-! ## What is read -/

theorem unknownNodes_eq (h : g.Bystander catalog n g') :
    unknownNodes catalog g'.nodes = unknownNodes catalog g.nodes := by
  obtain ⟨before, after, hg, hg'⟩ := h.nodes
  simp [unknownNodes, hg, hg', h.known]

theorem layerNodes_eq (h : g.Bystander catalog n g') :
    layerNodes catalog (knownNodes catalog g'.nodes) =
      layerNodes catalog (knownNodes catalog g.nodes) :=
  h.filter_known h.noLayer

theorem firstDataset_eq (h : g.Bystander catalog n g') :
    firstDataset catalog (knownNodes catalog g'.nodes) =
      firstDataset catalog (knownNodes catalog g.nodes) := by
  rw [firstDataset, firstDataset, h.find?_known (by simpa using h.noSource)]

theorem ne_of_mem_layerNodes (h : g.Bystander catalog n g') {id : String}
    (hid : id ∈ (layerNodes catalog (knownNodes catalog g.nodes)).map (·.id)) : id ≠ n.id := by
  obtain ⟨m, hm, rfl⟩ := mem_map.mp hid
  exact h.fresh m (mem_knownNodes (mem_filter.mp hm).1)

/-- The edges into the node are not among those that are put in order. -/
theorem scheduleFor_eq (h : g.Bystander catalog n g') :
    scheduleFor catalog g' = scheduleFor catalog g := by
  have hout : ((layerNodes catalog (knownNodes catalog g.nodes)).map (·.id)).contains n.id =
      false := by
    rw [contains_eq_mem, decide_eq_false_iff_not]
    exact fun hid => h.ne_of_mem_layerNodes hid rfl
  rw [scheduleFor, scheduleFor, h.layerNodes_eq, scheduleOf, scheduleOf]
  refine Schedule.ofGraph_congr ?_
  rw [Schedule.inside, Schedule.inside, filter_map, filter_map]
  congr 1
  refine h.connections.filter_eq fun c hc => ?_
  simp only [Function.comp_apply, hc, hout, Bool.and_false]

theorem incoming_eq (h : g.Bystander catalog n g') (input : TensorShape) (d : BlockDefinition)
    {m : Node} (hm : m.id ≠ n.id) :
    Plan.incoming ⟨catalog, knownNodes catalog g'.nodes, g'.connections, input⟩ d m =
      Plan.incoming ⟨catalog, knownNodes catalog g.nodes, g.connections, input⟩ d m := by
  rw [Plan.incoming, Plan.incoming]
  congr 1
  rw [h.connections.filter_eq fun c hc => by simp [hc, hm.symm]]
  refine filter_congr fun c hc => ?_
  have hsource : (n.id == c.source) = false := by simpa using (h.unread c hc).symm
  rw [Plan.node?, Plan.node?, h.find?_known hsource]

theorem coincide (h : g.Bystander catalog n g') : Coincide catalog g g' := by
  refine ⟨h.unknownNodes_eq, h.layerNodes_eq, h.firstDataset_eq, h.scheduleFor_eq, ?_⟩
  intro input id hid
  have hne : id ≠ n.id := h.ne_of_mem_layerNodes (Schedule.mem_order.mp hid)
  refine ⟨rfl, rfl, h.find?_known (by simpa using hne.symm), fun m hm d => ?_⟩
  have hmid : m.id ≠ n.id := Plan.node?_id hm ▸ hne
  rw [h.incoming_eq input d hmid, forall₂_same]
  intro c hc
  have hsource : c.source ≠ n.id := h.unread c (mem_filter.mp (mem_mergeSort.mp hc)).1
  exact ⟨h.find?_known (by simpa using hsource.symm), rfl⟩

end Graph.Bystander

namespace Compilation

/-- A graph compiles as it does without a node that no layer reads: to the same model, or with the
same fault, and with the same notes. Only the count of connections tells that the node is there. -/
theorem compile_bystander {α : Type} [Scalar α] {catalog : Catalog} {n : Node} {g g' : Graph}
    (h : g.Bystander catalog n g') (seed : Value) (input : Option InputSpec) :
    compile (α := α) catalog seed g' input =
      ((compile (α := α) catalog seed g input).1.map fun m =>
        { m with connectionCount := g'.connections.length },
      (compile (α := α) catalog seed g input).2) :=
  h.coincide.compile seed input

/-- A loss. -/
def squares : Node := ⟨"loss", "MSE", [], .null, false, .null, []⟩

/-- The feedback with a loss that all layers and the loss itself are connected to. -/
def judgedFeedback : Graph :=
  let edge (source : String) : Connection :=
    ⟨.null, source, .text "output", "loss", .text "predictions", .null, .null, []⟩
  { nodes := feedback.nodes.take 2 ++ squares :: feedback.nodes.drop 2
    connections := edge "act" :: feedback.connections.take 1 ++ edge "loss" ::
      feedback.connections.drop 1 ++ [edge "norm", edge "flat"] }

theorem feedback_bystander : feedback.Bystander Stock.catalog squares judgedFeedback where
  nodes := ⟨feedback.nodes.take 2, feedback.nodes.drop 2, rfl, rfl⟩
  connections :=
    .insert rfl (.keep _ (.insert rfl (.keep _ (.keep _ (.insert rfl (.insert rfl .nil))))))
  fresh := by simp [feedback, squares]
  unread := by simp [feedback, squares]
  known := by decide
  noLayer := by decide
  noSource := by simp [squares]

/-- The loss changes nothing but the count of connections. -/
theorem compile_judgedFeedback :
    feedback.Bystander Stock.catalog squares judgedFeedback ∧ ∃ m : Model Float,
      (compile Stock.catalog (.int 0) feedback none).1 = .ok m ∧
      m.layers.map (·.id) = ["norm", "act", "flat"] ∧ m.connectionCount = 3 ∧
      compile Stock.catalog (.int 0) judgedFeedback none =
        (.ok { m with connectionCount := 7 },
          (compile (α := Float) Stock.catalog (.int 0) feedback none).2) := by
  have hrun : ((compile Stock.catalog (.int 0) feedback none).1.toOption.map
      fun m : Model Float => (m.layers.map (·.id), m.connectionCount)) =
        some (["norm", "act", "flat"], 3) := by
    decide +kernel
  obtain ⟨m, hm, hfacts⟩ := Option.map_eq_some_iff.mp hrun
  obtain ⟨horder, hcount⟩ := Prod.mk.inj hfacts
  have hok := toOption_eq_some.mp hm
  have hsame := compile_bystander (α := Float) feedback_bystander (.int 0) none
  rw [hok] at hsame
  exact ⟨feedback_bystander, m, hok, horder, hcount, hsame⟩

end Compilation

end BlockNet
