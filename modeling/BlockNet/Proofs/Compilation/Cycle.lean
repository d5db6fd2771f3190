import BlockNet.Proofs.Compilation.Wiring
import BlockNet.Proofs.Schedule.Cycle

/-! # Cyclic graphs

A schedule tells whether its edges have a cycle, and a model tells whether the connections between
its graph's computational nodes have one. -/

namespace BlockNet.Compilation

open List Relation

variable {α : Type} [Scalar α]

/-- A connection leads from one node to another, both of known computational types. -/
def Connected (catalog : Catalog) (g : Graph) (source target : String) : Prop :=
  ∃ c ∈ g.connections, c.source = source ∧ c.target = target ∧
    ∀ id ∈ [source, target], ∃ n ∈ layerNodes catalog (knownNodes catalog g.nodes), n.id = id

theorem joined_iff_connected {catalog : Catalog} {g : Graph} {source target : String} :
    Schedule.Joined ((layerNodes catalog (knownNodes catalog g.nodes)).map (·.id))
      (g.connections.map fun c => (c.source, c.target)) source target ↔
      Connected catalog g source target := by
  simp only [Schedule.Joined, Schedule.Linked, Schedule.mem_inside, List.mem_map, Prod.mk.injEq,
    Connected, List.mem_cons, List.not_mem_nil, or_false, forall_eq_or_imp, forall_eq]
  constructor
  · rintro ⟨⟨c, hc, hsource, htarget⟩, hends⟩
    exact ⟨c, hc, hsource, htarget, hends⟩
  · rintro ⟨c, hc, hsource, htarget, hends⟩
    exact ⟨⟨c, hc, hsource, htarget⟩, hends⟩

theorem Compiled.cycleDetected_iff {catalog : Catalog} {g : Graph} {m : Model α}
    (h : Compiled catalog g m) :
    m.cycleDetected = true ↔ ∃ id, TransGen (Connected catalog g) id id := by
  have hrel : Schedule.Joined ((layerNodes catalog (knownNodes catalog g.nodes)).map (·.id))
      (g.connections.map fun c => (c.source, c.target)) = Connected catalog g := by
    funext source target
    exact propext joined_iff_connected
  rw [h.cyclic, scheduleFor, scheduleOf, Schedule.cycleDetected_ofGraph, hrel]

/-- A schedule detects a cycle if and only if there is one among the edges between its nodes, and
every back edge lies on one; so does a model for the connections between computational nodes. -/
theorem cycleDetected_iff_cycle :
    (∀ {β : Type} [BEq β] [LawfulBEq β] (nodes : List β) (edges : List (β × β)) (sources : List β),
      ((Schedule.ofGraph nodes edges sources).cycleDetected = true ↔
        ∃ a, TransGen (Schedule.Joined nodes edges) a a) ∧
      ∀ e ∈ (Schedule.ofGraph nodes edges sources).backEdges,
        Schedule.Joined nodes edges e.1 e.2 ∧
          ReflTransGen (Schedule.Joined nodes edges) e.2 e.1) ∧
    ∀ {catalog : Catalog} {seed : Value} {g : Graph} {input : Option InputSpec} {m : Model α},
      (compile catalog seed g input).1 = .ok m →
        (m.cycleDetected = true ↔ ∃ id, TransGen (Connected catalog g) id id) := by
  refine ⟨fun nodes edges sources => ⟨Schedule.cycleDetected_ofGraph nodes edges sources, ?_⟩, ?_⟩
  · intro e he
    exact Schedule.reflTransGen_of_mem_backEdges he
  · intro catalog seed g input m h
    exact (compile_compiled h).cycleDetected_iff

/-- Two layers that feed each other are a cycle. -/
theorem cycleDetected_feedback :
    (∃ m : Model Float, (compile Stock.catalog (.int 0) feedback none).1 = .ok m ∧
      m.cycleDetected = true) ∧
      ∃ id, TransGen (Connected Stock.catalog feedback) id id := by
  have hrun : ((compile Stock.catalog (.int 0) feedback none).1.toOption.map
      fun m : Model Float => m.cycleDetected) = some true := by
    decide +kernel
  obtain ⟨m, hm, hcyclic⟩ := Option.map_eq_some_iff.mp hrun
  have hok := toOption_eq_some.mp hm
  exact ⟨⟨m, hok, hcyclic⟩, (cycleDetected_iff_cycle.2 hok).mp hcyclic⟩

end BlockNet.Compilation
