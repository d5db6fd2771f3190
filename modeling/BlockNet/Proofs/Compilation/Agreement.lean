import BlockNet.Proofs.Compilation.Layers
import BlockNet.Proofs.Twin

/-! # Graphs that agree on what is read

What becomes of a node depends on the node, the sources of the connections into it and their ports.
Two graphs that agree on this for every node that is placed, and on the notes made before, compile
alike, down to the random draws. -/

namespace BlockNet.Compilation

open List

variable {α : Type}

/-- Connections from the same node and port. -/
structure Plan.SameOrigin (plan plan' : Plan) (c c' : Connection) : Prop where
  node : plan'.node? c'.source = plan.node? c.source
  port : c'.sourcePort = c.sourcePort

/-- An id names the same node in both plans, with connections from the same origins. -/
structure Plan.AgreesOn (plan plan' : Plan) (id : String) : Prop where
  catalog : plan'.catalog = plan.catalog
  input : plan'.input = plan.input
  node : plan'.node? id = plan.node? id
  feeds : ∀ n, plan.node? id = some n → ∀ d,
    Forall₂ (plan.SameOrigin plan') (plan.incoming d n) (plan'.incoming d n)

/-! ## One node -/

theorem addFeed_congr {plan plan' : Plan} {c c' : Connection}
    (hcatalog : plan'.catalog = plan.catalog) (hc : plan.SameOrigin plan' c c')
    (acc : Progress α × List Feed) : addFeed plan' acc c' = addFeed plan acc c := by
  have hshape : plan'.externalShape = plan.externalShape := by
    unfold Plan.externalShape
    rw [hcatalog]
  unfold addFeed
  rw [hc.node, hc.port, hcatalog, hshape]

theorem foldlM_addFeed_congr {plan plan' : Plan} {cs cs' : List Connection}
    (hcatalog : plan'.catalog = plan.catalog) (hcs : Forall₂ (plan.SameOrigin plan') cs cs')
    (acc : Progress α × List Feed) :
    cs'.foldlM (addFeed plan') acc = cs.foldlM (addFeed plan) acc := by
  induction hcs generalizing acc with
  | nil => rfl
  | cons hc _ ih =>
      rw [foldlM_cons, foldlM_cons, addFeed_congr hcatalog hc]
      simp only [ih]

/-- A node is placed alike where the plans agree on it. -/
theorem Plan.AgreesOn.place [Scalar α] {plan plan' : Plan} {id : String}
    (h : plan.AgreesOn plan' id) (p : Progress α) : place plan' p id = place plan p id := by
  unfold Compilation.place
  rw [h.node]
  cases hn : plan.node? id with
  | none => rfl
  | some n =>
      have hfeeds : ∀ d, feedsOf plan' p d n = feedsOf plan p d n := by
        intro d
        rw [feedsOf, feedsOf, foldlM_addFeed_congr h.catalog (h.feeds n hn d), h.input]
      simp only [h.catalog, hfeeds]

/-! ## Whole graphs -/

/-- The graphs coincide in all that a compilation reads: the notes on unknown types, the layers to be
with their order, the dataset, and what feeds each of them. -/
structure Coincide (catalog : Catalog) (g g' : Graph) : Prop where
  unknown : unknownNodes catalog g'.nodes = unknownNodes catalog g.nodes
  layers : layerNodes catalog (knownNodes catalog g'.nodes) =
    layerNodes catalog (knownNodes catalog g.nodes)
  dataset : firstDataset catalog (knownNodes catalog g'.nodes) =
    firstDataset catalog (knownNodes catalog g.nodes)
  schedule : scheduleFor catalog g' = scheduleFor catalog g
  plans : ∀ input, ∀ id ∈ (scheduleFor catalog g).order,
    Plan.AgreesOn ⟨catalog, knownNodes catalog g.nodes, g.connections, input⟩
      ⟨catalog, knownNodes catalog g'.nodes, g'.connections, input⟩ id

/-- Connections are changed in nothing that a compilation reads. -/
structure KeepsEnds (f : Connection → Connection) : Prop where
  source : ∀ c, (f c).source = c.source
  sourcePort : ∀ c, (f c).sourcePort = c.sourcePort
  target : ∀ c, (f c).target = c.target
  targetPort : ∀ c, (f c).targetPort = c.targetPort

theorem Plan.incoming_map (plan : Plan) {f : Connection → Connection} (hf : KeepsEnds f)
    (d : BlockDefinition) (n : Node) :
    Plan.incoming { plan with connections := plan.connections.map f } d n =
      (plan.incoming d n).map f := by
  have hinto : (fun c => c.target == n.id && (plan.node? c.source).isSome) ∘ f =
      fun c => c.target == n.id && (plan.node? c.source).isSome := by
    funext c
    simp only [Function.comp_apply, hf.target, hf.source]
  rw [Plan.incoming, Plan.incoming,
    map_mergeSort (s := fun a b => d.inputIndex a.targetPort ≤ d.inputIndex b.targetPort)
      fun c _ c' _ => by simp only [hf.targetPort], filter_map]
  exact congrArg (fun p => (List.map f (plan.connections.filter p)).mergeSort _) hinto

theorem Coincide.map_connections (catalog : Catalog) (nodes : List Node)
    (connections : List Connection) {f : Connection → Connection} (hf : KeepsEnds f) :
    Coincide catalog ⟨nodes, connections⟩ ⟨nodes, connections.map f⟩ := by
  refine ⟨rfl, rfl, rfl, ?_, fun input id _ => ⟨rfl, rfl, rfl, fun n _ d => ?_⟩⟩
  · have hends : (fun c : Connection => (c.source, c.target)) ∘ f =
        fun c => (c.source, c.target) := by
      funext c
      simp only [Function.comp_apply, hf.source, hf.target]
    rw [scheduleFor, scheduleFor, scheduleOf, scheduleOf, List.map_map, hends]
  · have hincoming := Plan.incoming_map ⟨catalog, knownNodes catalog nodes, connections, input⟩ hf d n
    rw [hincoming, forall₂_map_right_iff, forall₂_same]
    exact fun c _ => ⟨congrArg _ (hf.source c), hf.sourcePort c⟩

variable [Scalar α] {catalog : Catalog} {g g' : Graph}

theorem Coincide.run (h : Coincide catalog g g') (seed : Value) (input : Option InputSpec) :
    Twin Eq (fun r r' : Model α × List LogEntry =>
        r' = ({ r.1 with connectionCount := g'.connections.length }, r.2))
      (run catalog seed g input) (run catalog seed g' input) := by
  have hschedule := h.schedule
  rw [scheduleFor, scheduleFor, h.layers] at hschedule
  rw [Compilation.run, Compilation.run]
  simp only [h.unknown, h.layers, h.dataset, hschedule]
  split
  · exact .error rfl
  refine (Twin.refl _).bind ?_
  rintro dataset - rfl
  refine (Twin.refl _).bind ?_
  rintro shape - rfl
  refine (Twin.refl _).bind ?_
  rintro seed - rfl
  refine (Twin.foldlM (R := Eq) ?_ rfl).bind ?_
  · rintro id hid p - rfl
    rw [(h.plans shape id hid).place]
    exact Twin.refl _
  · rintro p - rfl
    split
    · exact .error rfl
    · exact .ok rfl

/-- Graphs that coincide compile alike, but for the count of connections. -/
theorem Coincide.compile (h : Coincide catalog g g') (seed : Value) (input : Option InputSpec) :
    compile (α := α) catalog seed g' input =
      ((compile (α := α) catalog seed g input).1.map fun m =>
        { m with connectionCount := g'.connections.length },
      (compile (α := α) catalog seed g input).2) := by
  unfold BlockNet.compile
  rw [(h.run seed input).eq_map]
  cases Compilation.run (α := α) catalog seed g input <;> rfl

omit [Scalar α] in
theorem Coincide.refl (catalog : Catalog) (g : Graph) : Coincide catalog g g :=
  ⟨rfl, rfl, rfl, rfl, fun _ _ _ => ⟨rfl, rfl, rfl, fun _ _ _ =>
    forall₂_same.mpr fun _ _ => ⟨rfl, rfl⟩⟩⟩

/-- With as many connections the models are the same. -/
theorem Coincide.compile_eq (h : Coincide catalog g g')
    (hcount : g'.connections.length = g.connections.length) (seed : Value)
    (input : Option InputSpec) :
    BlockNet.compile (α := α) catalog seed g' input = BlockNet.compile catalog seed g input := by
  rw [h.compile, hcount, ← (Coincide.refl catalog g).compile]

end BlockNet.Compilation
