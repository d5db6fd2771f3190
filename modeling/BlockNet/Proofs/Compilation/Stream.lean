import BlockNet.Proofs.Compilation.Listed
import BlockNet.Proofs.Fault.Compilation
import BlockNet.Proofs.Layer.Spent

/-! # The stream of a compilation

All weights of a model are read off one stream, layer by layer. A node that is left out takes
nothing from it, but for attention, which may have drawn weights by the time it is. As long as no
attention is left out, each weight therefore begins where the weights before it end. -/

namespace BlockNet

/-- The weights of a model that are drawn, layer by layer. -/
def Model.drawn {α : Type} (m : Model α) : List (Weight α) :=
  Streamed.drawnOf (m.layers.flatMap (·.weights))

/-- The weights of a model are read off a stream: the entries of those that are drawn are made of the
draws in their order, every other weight is filled, and no other draw is taken from the stream. -/
structure Model.ReadOff {α : Type} [Scalar α] (m : Model α) (g g' : Generator) : Prop where
  drawn : ∀ front w back, m.drawn = front ++ w :: back → ∀ i < w.tensor.size,
    ∃ bound, w.bound = .ok bound ∧ w.tensor.entry i =
      (g.uniformAt (combined (front.map fun v => v.tensor.size) + i) * Scalar.ofInt 2 - Scalar.one)
        * bound
  filled : ∀ L ∈ m.layers, ∀ w ∈ L.weights, w.name ∉ Weight.drawnNames → w.Filled
  rest : g' = g.skip (combined (m.drawn.map fun w => w.tensor.size))

namespace Compilation

open List

variable {α : Type} [Scalar α] {plan : Plan} {p p' : Progress α}

/-! ## The turn of a node -/

omit [Scalar α] in
/-- What a kernel is given in the turn of a node: the settings of the node, and the shapes of as
many of its feeds as the kernel takes. -/
structure Given (plan : Plan) (p : Progress α) (n : Node) (k : Kernel) (d : BlockDefinition)
    (params : Entries) (shapes : List TensorShape) : Prop where
  params : d.effectiveParams n.params = .ok params
  shapes : ∃ p₁ feeds, feedsOf plan p d n = .ok (p₁, feeds) ∧
    shapes = (limited k feeds).map (·.2)

/-- A layer that is made takes its weights off the stream, one that is left out what is spent on
it. -/
theorem addLayer_streamed {k : Kernel} {n : Node} {params : Entries} {feeds : List Feed}
    (h : addLayer k p n params feeds = .ok p') :
    (p'.layers = p.layers ∧ p'.generator = p.generator.skip (k.spent params (feeds.map (·.2))) ∧
      k.spent params (feeds.map (·.2)) ≤ 3 * largestVolume) ∨
    ∃ L, p'.layers = p.layers ++ [L] ∧ L.id = n.id ∧
      Streamed p.generator L.weights p'.generator := by
  simp only [addLayer] at h
  rcases hmade : (construct k params (feeds.map (·.2)) : Draws (_ × List (Weight α))).run
    p.generator with ⟨fault | ⟨shape, weights⟩, r⟩
  · simp only [hmade] at h
    split at h
    · rename_i hunresolved
      obtain rfl := Except.error.inj hunresolved
      obtain rfl := Except.ok.inj h
      exact .inl ⟨rfl, construct_stops hmade⟩
    · cases h
    · cases ‹Except.error fault = Except.ok _›
  · simp only [hmade] at h
    obtain ⟨-, hbuild⟩ := construct_eq_ok hmade
    obtain rfl := Except.ok.inj h
    have hkept : (noteMismatch { p with generator := r } n (feeds.map (·.2))).generator = r := by
      rw [noteMismatch]
      split <;> rfl
    refine .inr ⟨_, by rw [(noteMismatch_eq _ _ _).1], rfl, ?_⟩
    rw [hkept]
    exact Kernel.build_streamed hbuild

/-- The turn of a node with a kernel. -/
theorem place_kernel {n : Node} {k : Kernel} {d : BlockDefinition}
    (hnode : plan.node? n.id = some n) (hk : Kernel.ofKind? n.blockType = some k)
    (hd : plan.catalog.get? n.blockType = some d) (h : place plan p n.id = .ok p') :
    (p'.layers = p.layers ∧ ∃ params shapes, Given plan p n k d params shapes ∧
      p'.generator = p.generator.skip (k.spent params shapes) ∧
        k.spent params shapes ≤ 3 * largestVolume) ∨
    ∃ L, p'.layers = p.layers ++ [L] ∧ L.id = n.id ∧
      Streamed p.generator L.weights p'.generator := by
  rcases place_eq_ok h with ⟨hnone, -⟩ |
    ⟨n', k', d', p₁, feeds, params, _, hnode', hk', hd', hfeeds, hparams, hadd⟩
  · rcases hnone n hnode with hnone | hnone
    · rw [hk] at hnone
      cases hnone
    · rw [hd] at hnone
      cases hnone
  · obtain rfl := Option.some.inj (hnode.symm.trans hnode')
    obtain rfl := Option.some.inj (hk.symm.trans hk')
    obtain rfl := Option.some.inj (hd.symm.trans hd')
    -- gathering the feeds changes neither the layers nor the stream
    obtain ⟨fed, -, hfed⟩ := feedsOf_fed hfeeds
    have hstreamed := addLayer_streamed hadd
    simp only [hfed.layers, hfed.generator] at hstreamed
    rcases hstreamed with ⟨hlayers, hgenerator, hle⟩ | hmade
    · exact .inl ⟨hlayers, params, _, ⟨hparams, p₁, feeds, hfeeds, rfl⟩, hgenerator, hle⟩
    · exact .inr hmade

/-- A node without a kernel changes neither the layers nor the stream. -/
theorem place_noKernel {id : String} (h : place plan p id = .ok p')
    (hnone : ∀ n, plan.node? id = some n → Kernel.ofKind? n.blockType = none ∨
      plan.catalog.get? n.blockType = none) :
    p'.layers = p.layers ∧ p'.generator = p.generator := by
  rcases place_eq_ok h with ⟨-, _, _, _, rfl⟩ | ⟨n, k, d, _, _, _, _, hnode, hk, hd, -⟩
  · exact ⟨rfl, rfl⟩
  · rcases hnone n hnode with hnone | hnone
    · cases hk.symm.trans hnone
    · cases hd.symm.trans hnone

/-- What a node that is left out does to the stream, whenever its turn comes: the stream moves on by
what is spent on its kernel, and stays where it was only if that is nothing. -/
theorem place_leftOut_stream {n : Node} {k : Kernel} {d : BlockDefinition}
    (hnode : plan.node? n.id = some n) (hk : Kernel.ofKind? n.blockType = some k)
    (hd : plan.catalog.get? n.blockType = some d) (h : place plan p n.id = .ok p')
    (hout : p'.layers = p.layers) : ∃ params shapes, Given plan p n k d params shapes ∧
      p'.generator = p.generator.skip (k.spent params shapes) ∧
        (p'.generator = p.generator ↔ k.spent params shapes = 0) := by
  rcases place_kernel hnode hk hd h with
    ⟨-, params, shapes, hgiven, hgenerator, hle⟩ | ⟨L, hmade, -⟩
  · refine ⟨params, shapes, hgiven, hgenerator, ?_⟩
    have hlt : k.spent params shapes < UInt64.size := Nat.lt_of_le_of_lt hle (by decide)
    rw [hgenerator]
    exact Generator.skip_eq_self_iff hlt
  · rw [hout] at hmade
    exact absurd (congrArg List.length hmade) (by simp)

/-! ## Attention that has drawn -/

/-- Attention of two heads. -/
def attendingNode : Node :=
  ⟨"attn", Attention.kind, [(.text "dim", .int 4), (.text "heads", .int 2)], .null, false, .null,
    []⟩

/-- Attention over flowers beside another layer. Its keys may come from a loss, which is a number and
no sequence. -/
def attending (keyed : Bool) : Graph :=
  let node (id blockType : String) (params : Entries) : Node :=
    ⟨id, blockType, params, .null, false, .null, []⟩
  let edge (source port target into : String) : Connection :=
    ⟨.null, source, .text port, target, .text into, .null, .null, []⟩
  { nodes := [node "data" "DataLoader" [(.text "dataset", .text "iris")], node "loss" "MSE" [],
      attendingNode, node "out" "Dense" [(.text "units", .int 2)]]
    connections := edge "data" "data" "attn" "query" ::
      if keyed then [edge "loss" "loss" "attn" "key"] else [] }

/-- The plan for attention with keys from a loss. -/
def attendingPlan : Plan :=
  ⟨Stock.catalog, knownNodes Stock.catalog (attending true).nodes, (attending true).connections,
    TensorShape.batched [.size 4] .float32⟩

/-- Nothing compiled yet, and the stream of seed zero. -/
def attendingStart : Progress Float := .start (.seeded 0) [] [] []

theorem attending_incoming :
    attendingPlan.incoming Stock.attention attendingNode = attendingPlan.connections := by
  rw [Plan.incoming, show attendingPlan.connections.filter _ = attendingPlan.connections from rfl]
  refine mergeSort_of_pairwise ?_
  decide +kernel

/-- The query has its weights by the time that the keys turn out to be no sequence. -/
theorem attending_turn : ∃ p', place attendingPlan attendingStart "attn" = .ok p' ∧
    p'.layers = attendingStart.layers ∧ p'.skipped = ["attn"] ∧
      p'.warnings =
        ["MultiHeadAttention: MultiHeadAttention: expects a sequence, got () float32"] ∧
      p'.generator = (Generator.seeded 0).skip 16 := by
  have hnode : attendingPlan.node? "attn" = some attendingNode := rfl
  have hk : Kernel.ofKind? attendingNode.blockType = some .attention := rfl
  have hd : attendingPlan.catalog.get? attendingNode.blockType = some Stock.attention := rfl
  have hrun : ((place attendingPlan attendingStart "attn").toOption.map fun q =>
      (q.layers.isEmpty, q.skipped, q.warnings, q.generator)) = some (true, ["attn"],
        ["MultiHeadAttention: MultiHeadAttention: expects a sequence, got () float32"],
        (Generator.seeded 0).skip 16) := by
    -- the two connections are in order already, so that they need not be sorted
    simp only [place, hnode, hk, hd, feedsOf, attending_incoming]
    decide +kernel
  obtain ⟨p', hp', hfacts⟩ := Option.map_eq_some_iff.mp hrun
  simp only [Prod.mk.injEq, List.isEmpty_iff] at hfacts
  obtain ⟨hlayers, hskipped, hwarnings, hgenerator⟩ := hfacts
  exact ⟨p', toOption_eq_some.mp hp', hlayers, hskipped, hwarnings, hgenerator⟩

theorem place_leftOut_stream_attending : ∃ p',
    attendingPlan.node? attendingNode.id = some attendingNode ∧
    Kernel.ofKind? attendingNode.blockType = some .attention ∧
    attendingPlan.catalog.get? attendingNode.blockType = some Stock.attention ∧
    place attendingPlan attendingStart attendingNode.id = .ok p' ∧
    p'.layers = attendingStart.layers ∧
    ∃ params shapes, Given attendingPlan attendingStart attendingNode .attention
      Stock.attention params shapes ∧
      p'.generator = attendingStart.generator.skip (Kernel.attention.spent params shapes) ∧
        (p'.generator = attendingStart.generator ↔ Kernel.attention.spent params shapes = 0) := by
  obtain ⟨p', hp', hlayers, -⟩ := attending_turn
  exact ⟨p', rfl, rfl, rfl, hp', hlayers, place_leftOut_stream rfl rfl rfl hp' hlayers⟩

/-- Attention is left out, and the stream has moved when the turn of the next layer comes. -/
theorem attending_moves_stream : ∃ p' : Progress Float,
    TurnComes Stock.catalog (.int 0) (attending true) none attendingPlan attendingStart "attn" ∧
    place attendingPlan attendingStart "attn" = .ok p' ∧ p'.layers = attendingStart.layers ∧
    p'.skipped = attendingStart.skipped ++ ["attn"] ∧
    p'.warnings = attendingStart.warnings ++
      ["MultiHeadAttention: MultiHeadAttention: expects a sequence, got () float32"] ∧
    p'.generator ≠ attendingStart.generator ∧
    TurnComes Stock.catalog (.int 0) (attending true) none attendingPlan p' "out" := by
  obtain ⟨p', hp', hlayers, hskipped, hwarnings, hgenerator⟩ := attending_turn
  have hshape : (modelInputShape none (some "iris")).1.toOption =
      some (TensorShape.batched [.size 4] .float32) := by decide +kernel
  have hplanned : ∃ dataset shape,
      firstDataset Stock.catalog (knownNodes Stock.catalog (attending true).nodes) = .ok dataset ∧
        (modelInputShape none dataset).1 = .ok shape ∧ attendingPlan =
          ⟨Stock.catalog, knownNodes Stock.catalog (attending true).nodes,
            (attending true).connections, shape⟩ :=
    ⟨some "iris", _, rfl, toOption_eq_some.mp hshape, rfl⟩
  have horder : (scheduleFor Stock.catalog (attending true)).order = ["attn", "out"] := by
    decide +kernel
  have hout : ["attn"].foldlM (place attendingPlan) attendingStart = .ok p' := by
    rw [foldlM_cons, hp']
    rfl
  refine ⟨p', ⟨hplanned, 0, [], [], [], [], ["out"], rfl, horder, rfl⟩, hp', hlayers, hskipped,
    hwarnings, ?_, ⟨hplanned, 0, [], [], [], ["attn"], [], rfl, horder, hout⟩⟩
  rw [hgenerator]
  decide

/-! ## All turns -/

section Turns

variable {catalog : Catalog} {g : Graph} {m : Model α} {r : Generator} {log : List LogEntry}

omit [Scalar α] in
theorem nodup_putNode {nodes : List Node} {n : Node} (h : (nodes.map (·.id)).Nodup) :
    ((putNode nodes n).map (·.id)).Nodup := by
  induction nodes with
  | nil => simp [putNode]
  | cons a nodes ih =>
      rw [map_cons, nodup_cons] at h
      rw [putNode]
      split
      · rename_i hid
        rw [map_cons, ← eq_of_beq hid]
        exact nodup_cons.mpr h
      · rename_i hid
        rw [map_cons, nodup_cons]
        refine ⟨fun hmem => ?_, ih h.2⟩
        obtain ⟨b, hb, hsame⟩ := mem_map.mp hmem
        rcases mem_putNode hb with rfl | hb
        · exact hid (beq_iff_eq.mpr hsame.symm)
        · exact h.1 (hsame ▸ mem_map_of_mem hb)

omit [Scalar α] in
theorem nodup_knownNodes (catalog : Catalog) (nodes : List Node) :
    ((knownNodes catalog nodes).map (·.id)).Nodup := by
  rw [knownNodes]
  generalize nodes.filter _ = known
  have hfold : ∀ before, (before.map (·.id)).Nodup →
      ((known.foldl putNode before).map (·.id)).Nodup := by
    induction known with
    | nil => exact fun before h => h
    | cons n known ih => exact fun before h => ih _ (nodup_putNode h)
  exact hfold [] nodup_nil

omit [Scalar α] in
/-- A node that has its turn is one that is to become a layer. -/
theorem mem_layerNodes_of_turn {id : String} {n : Node}
    (hid : id ∈ (layerNodes catalog (knownNodes catalog g.nodes)).map (·.id))
    (hnode : (planOf catalog g m).node? id = some n) :
    n ∈ layerNodes catalog (knownNodes catalog g.nodes) := by
  obtain ⟨n', hn', rfl⟩ := mem_map.mp hid
  have hmem : n ∈ knownNodes catalog g.nodes := mem_of_find?_eq_some hnode
  obtain rfl := inj_on_of_nodup_map (nodup_knownNodes catalog g.nodes) hmem (mem_filter.mp hn').1
    (Plan.node?_id hnode)
  exact hn'

/-- A turn that reads off the stream what it makes, and nothing else. -/
inductive Reads (p : Progress α) (id : String) (p' : Progress α) : Prop where
  | nothing (hlayers : p'.layers = p.layers) (hgenerator : p'.generator = p.generator)
  | layer (L : Layer α) (hlayers : p'.layers = p.layers ++ [L]) (hid : L.id = id)
      (hweights : Streamed p.generator L.weights p'.generator)

/-- All turns do so that leave out no attention. -/
theorem place_reads {id : String} (h : place plan p id = .ok p')
    (hattended : ∀ n, plan.node? id = some n → n.blockType = Attention.kind →
      p'.layers ≠ p.layers) : Reads p id p' := by
  by_cases hkernel : ∃ n k d, plan.node? id = some n ∧ Kernel.ofKind? n.blockType = some k ∧
      plan.catalog.get? n.blockType = some d
  · obtain ⟨n, k, d, hnode, hk, hd⟩ := hkernel
    obtain rfl := Plan.node?_id hnode
    rcases place_kernel hnode hk hd h with
      ⟨hlayers, params, shapes, -, hgenerator, -⟩ | ⟨L, hlayers, hid, hweights⟩
    · have hother : k ≠ .attention := by
        rintro rfl
        exact hattended n hnode (kind_of_ofKind? hk).symm hlayers
      rw [Kernel.spent_of_ne hother, Generator.skip_zero] at hgenerator
      exact .nothing hlayers hgenerator
    · exact .layer L hlayers hid hweights
  · obtain ⟨hlayers, hgenerator⟩ := place_noKernel h fun n hnode => by
      by_contra hboth
      rw [not_or] at hboth
      obtain ⟨k, hk⟩ := Option.ne_none_iff_exists'.mp hboth.1
      obtain ⟨d, hd⟩ := Option.ne_none_iff_exists'.mp hboth.2
      exact hkernel ⟨n, k, d, hnode, hk, hd⟩
    exact .nothing hlayers hgenerator

/-- The layers after such a turn continue what was read before it. -/
theorem Reads.streamed {id : String} (h : Reads p id p') {r : Generator}
    (hread : Streamed r (p.layers.flatMap (·.weights)) p.generator) :
    Streamed r (p'.layers.flatMap (·.weights)) p'.generator := by
  cases h with
  | nothing hlayers hgenerator => rwa [hlayers, hgenerator]
  | layer L hlayers hid hweights =>
      rw [hlayers, flatMap_append, flatMap_singleton]
      exact hread.append hweights

/-- Every attention among some ids has become a layer. -/
def Attended (catalog : Catalog) (g : Graph) (ids : List String) (p : Progress α) : Prop :=
  ∀ n ∈ layerNodes catalog (knownNodes catalog g.nodes), n.blockType = Attention.kind →
    n.id ∈ ids → n.id ∈ p.layers.map (·.id)

/-- A turn makes no layer of any other id, so that attention that is a layer after it, and had its
turn before, was a layer before. -/
theorem Reads.attended {done : List String} {id : String} (h : Reads p id p') (hnew : id ∉ done)
    (hattended : Attended catalog g (done ++ [id]) p') : Attended catalog g done p := by
  intro n hn hkind hdone
  have hmem := hattended n hn hkind (mem_append_left _ hdone)
  cases h with
  | nothing hlayers _ => rwa [hlayers] at hmem
  | layer L hlayers hid _ =>
      rw [hlayers, map_append, mem_append, map_singleton, mem_singleton] at hmem
      refine hmem.resolve_right fun hsame => ?_
      rw [hsame, hid] at hdone
      exact hnew hdone

/-- A turn after which every attention so far is a layer. -/
theorem Attended.reads {done : List String} {id : String}
    (hattended : Attended catalog g (done ++ [id]) p') (hnew : id ∉ done)
    (hid : id ∈ (layerNodes catalog (knownNodes catalog g.nodes)).map (·.id))
    (hsound : p.Sound (planOf catalog g m) done) (h : place (planOf catalog g m) p id = .ok p') :
    Reads p id p' := by
  refine place_reads h fun n hnode hkind hlayers => hnew ?_
  have hsame := Plan.node?_id hnode
  have hmem := hattended n (mem_layerNodes_of_turn hid hnode) hkind
    (hsame ▸ mem_append_right done mem_cons_self)
  rw [hlayers, hsame] at hmem
  exact hsound.order.subset hmem

/-- All weights of a model are read off the stream that it began with, if all turns leave out no
attention. -/
theorem Completed.streamed (h : Completed catalog g m r log p)
    (hattended : Attended catalog g (scheduleFor catalog g).order p) :
    Streamed r (m.layers.flatMap (·.weights)) p.generator := by
  have horder : (scheduleFor catalog g).order ⊆
      (layerNodes catalog (knownNodes catalog g.nodes)).map (·.id) := by
    intro id hid
    exact Schedule.mem_order.mp hid
  -- that attention is made is known of the finished model only, and goes back turn by turn
  have hrun := foldlM_induction (P := fun done q => q.Sound (planOf catalog g m) done ∧
    (done ⊆ (layerNodes catalog (knownNodes catalog g.nodes)).map (·.id) → done.Nodup →
      Attended catalog g done q → Streamed r (q.layers.flatMap (·.weights)) q.generator))
    ?_ ?_ h.turns
  · rw [h.layers]
    exact hrun.2 horder (Schedule.nodup_order _ _ _) hattended
  · rintro done id q q' ⟨hsound, hread⟩ hq
    refine ⟨hsound.place hq, ?_⟩
    intro hids hnodup hattended
    obtain ⟨hids, hid⟩ := append_subset.mp hids
    obtain ⟨hdone, -, hapart⟩ := nodup_append.mp hnodup
    have hnew : id ∉ done := fun hmem => hapart id hmem id mem_cons_self rfl
    have hturn := hattended.reads hnew (hid mem_cons_self) hsound hq
    exact hturn.streamed (hread hids hdone (hturn.attended hnew hattended))
  · exact ⟨Progress.sound_start _ _ _ _ _, fun _ _ _ => .nil r⟩

theorem Completed.readOff (h : Completed catalog g m r log p)
    (hattended : ∀ n ∈ layerNodes catalog (knownNodes catalog g.nodes),
      n.blockType = Attention.kind → n.id ∈ m.layers.map (·.id)) : m.ReadOff r p.generator := by
  have hstreamed : Streamed r (m.layers.flatMap (·.weights)) p.generator := by
    refine h.streamed fun n hn hkind _ => ?_
    rw [← h.layers]
    exact hattended n hn hkind
  refine ⟨?_, ?_, hstreamed.skip_eq⟩
  · intro front w back hsplit i hi
    exact hstreamed.entry_eq hsplit hi
  · intro L hL w hw hname
    exact hstreamed.filled_of_notMem (mem_flatMap.mpr ⟨L, hL, hw⟩) hname

/-- Compilation that leaves out no attention reads the weights off the stream of the seed without a
gap: each entry of a drawn weight is made of the draw after those of all entries before it, across
all layers, and nothing else takes any. -/
theorem compile_readOff {seed : Value} {input : Option InputSpec}
    (h : (compile catalog seed g input).1 = .ok m)
    (hattended : ∀ n ∈ layerNodes catalog (knownNodes catalog g.nodes),
      n.blockType = Attention.kind → n.id ∈ m.layers.map (·.id)) :
    ∃ s log p, seed.toInt = .ok s ∧ Completed catalog g m (.seeded s) log p ∧
      m.ReadOff (.seeded s) p.generator := by
  obtain ⟨s, log, p, hs, hp⟩ := compile_drawsFrom h
  exact ⟨s, log, p, hs, hp, hp.readOff hattended⟩

end Turns

theorem compile_readOff_attending : ∃ m : Model Float,
    (compile Stock.catalog (.int 7) (attending false) none).1 = .ok m ∧
    (∀ n ∈ layerNodes Stock.catalog (knownNodes Stock.catalog (attending false).nodes),
      n.blockType = Attention.kind → n.id ∈ m.layers.map (·.id)) ∧
    ∃ s log p, (Value.int 7).toInt = .ok s ∧
      Completed Stock.catalog (attending false) m (.seeded s) log p ∧
        m.ReadOff (.seeded s) p.generator := by
  have hrun : ((compile Stock.catalog (.int 7) (attending false) none).1.toOption.map
      fun m : Model Float => m.layers.map (·.id)) = some ["attn", "out"] := by
    decide +kernel
  obtain ⟨m, hm, hlayers⟩ := Option.map_eq_some_iff.mp hrun
  have hok := toOption_eq_some.mp hm
  have hattended : ∀ n ∈ layerNodes Stock.catalog (knownNodes Stock.catalog (attending false).nodes),
      n.blockType = Attention.kind → n.id ∈ m.layers.map (·.id) := by
    rw [hlayers]
    decide +kernel
  exact ⟨m, hok, hattended, compile_readOff hok hattended⟩

end Compilation

end BlockNet
