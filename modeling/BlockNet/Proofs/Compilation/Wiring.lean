import BlockNet.Proofs.Compilation.Layers
import BlockNet.Proofs.Schedule.Order
import Mathlib.Data.List.Forall2

/-! # The wiring of a model

Layers are fed while the layers after them are not there yet. What a layer is fed from can all the
same be told from the finished model: a connection between layers is used unless the schedule counts
it among the back edges. -/

namespace BlockNet.Compilation

open List

variable {α : Type} [Scalar α]

/-! ## Known nodes -/

/-- The node of a known type that has an id. -/
def known? (catalog : Catalog) (g : Graph) (id : String) : Option Node :=
  g.nodes.find? fun n => n.id == id && catalog.contains n.blockType

theorem mem_putNode {nodes : List Node} {n m : Node} (h : m ∈ putNode nodes n) :
    m = n ∨ m ∈ nodes := by
  induction nodes with
  | nil => simpa [putNode] using h
  | cons a nodes ih =>
      unfold putNode at h
      split at h
      · rw [mem_cons] at h ⊢
        tauto
      · rw [mem_cons] at h ⊢
        tauto

theorem mem_foldl_putNode {nodes before : List Node} {m : Node}
    (h : m ∈ nodes.foldl putNode before) : m ∈ before ∨ m ∈ nodes := by
  induction nodes generalizing before with
  | nil => exact .inl h
  | cons n nodes ih =>
      rcases ih h with hm | hm
      · rcases mem_putNode hm with rfl | hm
        · exact .inr mem_cons_self
        · exact .inl hm
      · exact .inr (mem_cons_of_mem n hm)

theorem mem_knownNodes {catalog : Catalog} {nodes : List Node} {m : Node}
    (h : m ∈ knownNodes catalog nodes) : m ∈ nodes := by
  rcases mem_foldl_putNode h with hm | hm
  · cases hm
  · exact (mem_filter.mp hm).1

theorem putNode_of_notMem {nodes : List Node} {n : Node} (h : n.id ∉ nodes.map (·.id)) :
    putNode nodes n = nodes ++ [n] := by
  induction nodes with
  | nil => rfl
  | cons m nodes ih =>
      rw [List.map_cons, List.mem_cons, not_or] at h
      have hne : (m.id == n.id) = false := by simpa using fun e => h.1 e.symm
      rw [putNode, hne, if_neg Bool.false_ne_true, ih h.2, List.cons_append]

theorem foldl_putNode {nodes before : List Node} (h : ((before ++ nodes).map (·.id)).Nodup) :
    nodes.foldl putNode before = before ++ nodes := by
  induction nodes generalizing before with
  | nil => simp
  | cons n nodes ih =>
      have hsplit : before ++ n :: nodes = (before ++ [n]) ++ nodes := by simp
      have hnew : n.id ∉ before.map (·.id) := by
        intro hmem
        rw [List.map_append, List.nodup_append] at h
        exact h.2.2 _ hmem _ (List.mem_map_of_mem List.mem_cons_self) rfl
      rw [List.foldl_cons, putNode_of_notMem hnew, ih (hsplit ▸ h), hsplit]

theorem knownNodes_eq {catalog : Catalog} {nodes : List Node} (h : (nodes.map (·.id)).Nodup) :
    knownNodes catalog nodes = nodes.filter fun n => catalog.contains n.blockType := by
  rw [knownNodes, foldl_putNode, List.nil_append]
  exact h.sublist (List.filter_sublist.map _)

omit [Scalar α] in
theorem node?_planOf {catalog : Catalog} {g : Graph} (h : (g.nodes.map (·.id)).Nodup)
    (m : Model α) : (planOf catalog g m).node? = known? catalog g := by
  funext id
  rw [Plan.node?, planOf, knownNodes_eq h, List.find?_filter, known?]
  congr 1
  funext n
  rw [Bool.eq_iff_iff]
  simp [and_comm]

/-! ## Back edges and the order of layers -/

/-- In a part of an order, the members before one are those with a smaller place. -/
theorem mem_before_iff {order before later : List String} {x y : String} (hnodup : order.Nodup)
    (hsub : before ++ x :: later <+ order) :
    y ∈ before ↔ y ∈ before ++ x :: later ∧ order.idxOf y < order.idxOf x := by
  have hplaces : order.Pairwise fun a b => order.idxOf a < order.idxOf b := by
    rw [List.pairwise_iff_getElem]
    intro i j hi hj hij
    rwa [hnodup.idxOf_getElem i hi, hnodup.idxOf_getElem j hj]
  obtain ⟨-, hx, hbefore⟩ := List.pairwise_append.mp (hplaces.sublist hsub)
  obtain ⟨hlater, -⟩ := List.pairwise_cons.mp hx
  constructor
  · intro hy
    exact ⟨List.mem_append_left _ hy, hbefore y hy x List.mem_cons_self⟩
  · rintro ⟨hy, hlt⟩
    rcases List.mem_append.mp hy with hy | hy
    · exact hy
    rcases List.mem_cons.mp hy with rfl | hy
    · exact absurd hlt (Nat.lt_irrefl _)
    · exact absurd hlt (Nat.lt_asymm (hlater y hy))

theorem Compiled.nodup {catalog : Catalog} {g : Graph} {m : Model α} (h : Compiled catalog g m) :
    (m.layers.map (·.id)).Nodup :=
  (Schedule.nodup_order _ _ _).sublist h.order

/-- A layer finds the source of a connection compiled just when the source is a layer in the end and
the connection no back edge. -/
theorem Compiled.mem_earlier_iff {catalog : Catalog} {g : Graph} {m : Model α}
    (h : Compiled catalog g m) {earlier later : List (Layer α)} {L : Layer α}
    (hsplit : m.layers = earlier ++ L :: later) {c : Connection} (hc : c ∈ g.connections)
    (htarget : c.target = L.id) :
    c.source ∈ earlier.map (·.id) ↔ c.source ∈ m.layers.map (·.id) ∧
      (c.source, c.target) ∉ (scheduleFor catalog g).backEdges := by
  have hsub := h.order
  rw [hsplit, List.map_append, List.map_cons] at hsub ⊢
  rw [mem_before_iff (Schedule.nodup_order _ _ _) hsub, htarget]
  refine and_congr_right fun hsource => ?_
  have hends : ∀ id ∈ earlier.map (·.id) ++ L.id :: later.map (·.id),
      id ∈ (layerNodes catalog (knownNodes catalog g.nodes)).map (·.id) := by
    intro id hid
    exact Schedule.mem_order.mp (hsub.subset hid)
  have hinside : (c.source, L.id) ∈ Schedule.inside
      ((layerNodes catalog (knownNodes catalog g.nodes)).map (·.id))
      (g.connections.map fun c => (c.source, c.target)) := by
    refine Schedule.mem_inside.mpr ⟨?_, hends _ hsource, hends _ (by simp)⟩
    exact List.mem_map.mpr ⟨c, hc, by rw [htarget]⟩
  rw [scheduleFor, scheduleOf, Schedule.mem_backEdges_iff, not_and, not_not]
  exact ⟨fun hlt _ => hlt, fun hlt => hlt hinside⟩

/-! ## The wiring told from the finished model -/

/-- The connections from known nodes into a node, in the order of its ports; connections to unknown
ports come last. -/
def arrivals (catalog : Catalog) (g : Graph) (d : BlockDefinition) (id : String) :
    List Connection :=
  (g.connections.filter fun c =>
    c.target == id && (known? catalog g c.source).isSome).mergeSort
      fun a b => d.inputIndex a.targetPort ≤ d.inputIndex b.targetPort

/-- The origins of what a node is fed from: sources that are layers of the model, except along back
edges, and ports of sources outside; the input of the model if there are none; as many as the kernel
takes. -/
def wiring (catalog : Catalog) (g : Graph) (m : Model α) (k : Kernel) (d : BlockDefinition)
    (id : String) : List Origin :=
  limited k (orInput ((arrivals catalog g d id).filterMap (origin? catalog (known? catalog g)
    fun c => (m.layers.map (·.id)).contains c.source &&
      !(scheduleFor catalog g).backEdges.contains (c.source, c.target))))

/-- What a layer of a model owes to the graph, the layers before it and the input of the model. -/
structure Wired (catalog : Catalog) (g : Graph) (m : Model α) (earlier : List (Layer α))
    (L : Layer α) (n : Node) (k : Kernel) (d : BlockDefinition) : Prop where
  node : known? catalog g L.id = some n ∧ L.kind = n.blockType
  kernel : Kernel.ofKind? L.kind = some k
  definition : catalog.get? L.kind = some d
  params : d.effectiveParams n.params = .ok L.params
  feeds : L.feeds = (wiring catalog g m k d L.id).map Origin.key
  forward : ∀ id, Origin.layer id ∈ wiring catalog g m k d L.id → ∃ K ∈ earlier, K.id = id
  shapes : List.Forall₂ (Origin.Gives catalog m.inputShape earlier) (wiring catalog g m k d L.id)
    L.inputShapes
  output : k.outputShape L.params L.inputShapes = .ok L.outputShape

theorem origin?_congr {catalog : Catalog} {known? : String → Option Node}
    {ready ready' : Connection → Bool} {c : Connection} (h : ready c = ready' c) :
    origin? catalog known? ready c = origin? catalog known? ready' c := by
  simp only [origin?, h]

/-- The origins that a layer found while it was compiled are those of the finished model. -/
theorem Compiled.wiring_eq {catalog : Catalog} {g : Graph} {m : Model α}
    (h : Compiled catalog g m) (hids : (g.nodes.map (·.id)).Nodup) {earlier later : List (Layer α)}
    {L : Layer α} (hsplit : m.layers = earlier ++ L :: later) {n : Node} {k : Kernel}
    {d : BlockDefinition} {fed : List (Origin × TensorShape)}
    (hmade : Made (planOf catalog g m) earlier L n k d fed) :
    fed.map (·.1) = wiring catalog g m k d L.id := by
  have hincoming : (planOf catalog g m).incoming d n = arrivals catalog g d L.id := by
    rw [Plan.incoming, arrivals, node?_planOf hids, Plan.node?_id hmade.node]
    rfl
  rw [hmade.origins, wiring, hincoming, node?_planOf hids]
  refine congrArg (fun origins => limited k (orInput origins)) ?_
  apply List.filterMap_congr
  intro c hc
  obtain ⟨hc, hboth⟩ := List.mem_filter.mp (List.mem_mergeSort.mp hc)
  have htarget : c.target = L.id := by
    rw [Bool.and_eq_true] at hboth
    exact eq_of_beq hboth.1
  apply origin?_congr
  rw [Bool.eq_iff_iff]
  simpa using h.mem_earlier_iff hsplit hc htarget

omit [Scalar α] in
theorem Origin.Gives.exists_earlier {catalog : Catalog} {input : TensorShape}
    {earlier : List (Layer α)} {id : String} {shape : TensorShape}
    (h : (Origin.layer id).Gives catalog input earlier shape) : ∃ K ∈ earlier, K.id = id := by
  cases h with
  | layer K hK => exact ⟨K, hK, rfl⟩

/-- What a layer was made of is what the finished model tells of its wiring. -/
theorem Compiled.wired_of_made {catalog : Catalog} {g : Graph} {m : Model α}
    (h : Compiled catalog g m) (hids : (g.nodes.map (·.id)).Nodup)
    {earlier later : List (Layer α)} {L : Layer α} (hsplit : m.layers = earlier ++ L :: later)
    {n : Node} {k : Kernel} {d : BlockDefinition} {fed : List (Origin × TensorShape)}
    (hmade : Made (planOf catalog g m) earlier L n k d fed) :
    Wired catalog g m earlier L n k d := by
  have hwiring := h.wiring_eq hids hsplit hmade
  exact
    { node := ⟨node?_planOf hids m ▸ hmade.node, hmade.kind⟩
      kernel := hmade.kind ▸ hmade.kernel
      definition := hmade.kind ▸ hmade.definition
      params := hmade.params
      feeds := by rw [hmade.feeds, ← hwiring, List.map_map]; rfl
      forward := by
        intro id hid
        rw [← hwiring] at hid
        obtain ⟨⟨o, shape⟩, hx, rfl⟩ := List.mem_map.mp hid
        exact (hmade.gives _ hx).exists_earlier
      shapes := by
        rw [hmade.shapes, ← hwiring, List.forall₂_map_left_iff, List.forall₂_map_right_iff,
          List.forall₂_same]
        exact hmade.gives
      output := hmade.output }

theorem Compiled.wired {catalog : Catalog} {g : Graph} {m : Model α} (h : Compiled catalog g m)
    (hids : (g.nodes.map (·.id)).Nodup) {earlier later : List (Layer α)} {L : Layer α}
    (hsplit : m.layers = earlier ++ L :: later) : ∃ n k d, Wired catalog g m earlier L n k d := by
  obtain ⟨n, k, d, fed, hmade⟩ := h.made earlier L later hsplit
  exact ⟨n, k, d, h.wired_of_made hids hsplit hmade⟩

/-- In a model of a graph with distinct ids, layers have distinct ids, and every layer is wired as
the graph and the finished model tell. -/
theorem compile_wired {catalog : Catalog} {seed : Value} {g : Graph} {input : Option InputSpec}
    {m : Model α} (hids : (g.nodes.map (·.id)).Nodup)
    (h : (compile catalog seed g input).1 = .ok m) :
    (m.layers.map (·.id)).Nodup ∧ ∀ earlier L later, m.layers = earlier ++ L :: later →
      ∃ n k d, Wired catalog g m earlier L n k d :=
  ⟨(compile_compiled h).nodup, fun _ _ _ hsplit => (compile_compiled h).wired hids hsplit⟩

/-- A layer fed from labels, and two layers that feed each other. -/
def feedback : Graph :=
  let node (id blockType : String) : Node := ⟨id, blockType, [], .null, false, .null, []⟩
  let edge (source sourcePort target : String) : Connection :=
    ⟨.null, source, .text sourcePort, target, .text "input", .null, .null, []⟩
  { nodes := [node "act" "Activation", node "data" "DataLoader", node "flat" "Flatten",
      node "norm" "LayerNorm"]
    connections := [edge "act" "output" "norm", edge "data" "labels" "flat",
      edge "norm" "output" "act"] }

theorem compile_wired_feedback :
    (feedback.nodes.map (·.id)).Nodup ∧ ∃ m : Model Float,
      (compile Stock.catalog (.int 0) feedback none).1 = .ok m ∧
      (m.layers.map fun l => (l.id, l.feeds)) =
        [("norm", ["__input__"]), ("act", ["norm"]), ("flat", ["data.labels"])] ∧
      (m.layers.map (·.id)).Nodup ∧ ∀ earlier L later, m.layers = earlier ++ L :: later →
        ∃ n k d, Wired Stock.catalog feedback m earlier L n k d := by
  have hids : (feedback.nodes.map (·.id)).Nodup := by decide
  have hrun : ((compile Stock.catalog (.int 0) feedback none).1.toOption.map
      fun m : Model Float => m.layers.map fun l => (l.id, l.feeds)) =
        some [("norm", ["__input__"]), ("act", ["norm"]), ("flat", ["data.labels"])] := by
    decide +kernel
  obtain ⟨m, hm, hfeeds⟩ := Option.map_eq_some_iff.mp hrun
  have hok := toOption_eq_some.mp hm
  exact ⟨hids, m, hok, hfeeds, compile_wired hids hok⟩

end BlockNet.Compilation
