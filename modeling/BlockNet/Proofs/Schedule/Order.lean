import BlockNet.Proofs.Schedule.Walk

/-! # The order of a schedule

A schedule lists every node once, and its back edges are, occurrence by occurrence, the edges whose
target does not come strictly after their source. -/

namespace BlockNet.Schedule

open List

variable {α : Type} [BEq α] [LawfulBEq α]

theorem mem_inside {nodes : List α} {edges : List (α × α)} {e : α × α} :
    e ∈ inside nodes edges ↔ e ∈ edges ∧ e.1 ∈ nodes ∧ e.2 ∈ nodes := by
  simp [inside]

theorem inside_distinct (nodes : List α) (edges : List (α × α)) :
    inside (distinct nodes) edges = inside nodes edges := by
  apply List.filter_congr
  intro e _
  simp [mem_distinct]

/-- Edges that leave the nodes make no difference to the schedule. -/
theorem ofGraph_congr {nodes : List α} {edges edges' : List (α × α)} {sources : List α}
    (h : inside nodes edges = inside nodes edges') :
    ofGraph nodes edges sources = ofGraph nodes edges' sources := by
  simp only [ofGraph, inside_distinct, h]

theorem target_mem_distinct {nodes : List α} {edges : List (α × α)} :
    ∀ e ∈ inside nodes edges, e.2 ∈ distinct nodes :=
  fun _ he => mem_distinct.mpr (mem_inside.mp he).2.2

omit [LawfulBEq α] in
/-- The starts of all visits: the roots and then all nodes, last to first. -/
def starts (nodes : List α) (edges : List (α × α)) (sources : List α) : List α :=
  (roots (distinct nodes) (inside nodes edges) sources).reverse ++ (distinct nodes).reverse

omit [LawfulBEq α] in
theorem starts_subset {nodes : List α} {edges : List (α × α)} {sources : List α} :
    ∀ a ∈ starts nodes edges sources, a ∈ distinct nodes := by
  intro a ha
  rcases List.mem_append.mp ha with ha | ha
  · exact (List.mem_filter.mp (List.mem_reverse.mp ha)).1
  · exact List.mem_reverse.mp ha

/-- The walk that makes a schedule ends at rest, with all nodes done. -/
theorem ofGraph_walk (nodes : List α) (edges : List (α × α)) (sources : List α) :
    ∃ w : Walk α, ofGraph nodes edges sources = ⟨w.done, w.back⟩ ∧
      w.Rested (distinct nodes) (inside nodes edges) ∧ ∀ a ∈ nodes, a ∈ w.done := by
  obtain ⟨hrested, hdone⟩ :=
    Walk.rested_start.visits target_mem_distinct (starts nodes edges sources) starts_subset
  refine ⟨_, ?_, hrested, ?_⟩
  · simp only [ofGraph, inside_distinct]
    rfl
  · intro a ha
    apply hdone a
    left
    exact List.mem_append_right _ (List.mem_reverse.mpr (mem_distinct.mpr ha))

theorem nodup_order (nodes : List α) (edges : List (α × α)) (sources : List α) :
    (ofGraph nodes edges sources).order.Nodup := by
  obtain ⟨w, hw, hrested, -⟩ := ofGraph_walk nodes edges sources
  obtain ⟨seen, hsound⟩ := hrested.sound
  rw [hw, ← hrested.line]
  exact hsound.nodup

theorem mem_order {nodes : List α} {edges : List (α × α)} {sources : List α} {a : α} :
    a ∈ (ofGraph nodes edges sources).order ↔ a ∈ nodes := by
  obtain ⟨w, hw, hrested, hall⟩ := ofGraph_walk nodes edges sources
  obtain ⟨seen, hsound⟩ := hrested.sound
  rw [hw]
  refine ⟨fun ha => ?_, hall a⟩
  exact mem_distinct.mp (hsound.within a (hrested.line ▸ ha))

theorem backEdges_perm (nodes : List α) (edges : List (α × α)) (sources : List α) :
    (ofGraph nodes edges sources).backEdges ~
      (inside nodes edges).filter (pointsBack (ofGraph nodes edges sources).order) := by
  obtain ⟨w, hw, hrested, hall⟩ := ofGraph_walk nodes edges sources
  obtain ⟨seen, hsound⟩ := hrested.sound
  rw [hw, ← hrested.line]
  have hseen : seen ~ w.line.flatMap (outgoing (inside nodes edges)) := by
    simpa [Walk.waiting, hrested.stack] using hsound.split
  have hcover : (inside nodes edges).filter (fun e => w.line.contains e.1) =
      inside nodes edges := by
    apply List.filter_eq_self.mpr
    intro e he
    rw [hrested.line]
    simpa using hall e.1 (mem_inside.mp he).2.1
  have hedges := hseen.trans (flatMap_outgoing_perm (inside nodes edges) hsound.nodup)
  rw [hcover] at hedges
  exact hsound.back.trans (hedges.filter _)

omit [LawfulBEq α] in
theorem pointsBack_iff {order : List α} {e : α × α} :
    pointsBack order e = true ↔ ¬order.idxOf e.1 < order.idxOf e.2 := by
  simp [pointsBack]

/-- An edge between nodes that is not among the back edges points strictly forward. -/
theorem idxOf_lt_of_notMem_backEdges {nodes : List α} {edges : List (α × α)} {sources : List α}
    {e : α × α} (he : e ∈ inside nodes edges)
    (hback : e ∉ (ofGraph nodes edges sources).backEdges) :
    (ofGraph nodes edges sources).order.idxOf e.1 < (ofGraph nodes edges sources).order.idxOf e.2 := by
  rw [(backEdges_perm nodes edges sources).mem_iff, List.mem_filter, not_and] at hback
  exact not_not.mp (mt pointsBack_iff.mpr (hback he))

theorem mem_backEdges_iff {nodes : List α} {edges : List (α × α)} {sources : List α} {e : α × α} :
    e ∈ (ofGraph nodes edges sources).backEdges ↔ e ∈ inside nodes edges ∧
      ¬(ofGraph nodes edges sources).order.idxOf e.1 <
        (ofGraph nodes edges sources).order.idxOf e.2 := by
  rw [(backEdges_perm nodes edges sources).mem_iff, List.mem_filter, pointsBack_iff]

/-- What a schedule owes to nodes and edges: every node once and nothing else, and as back edges
just those occurrences of edges between nodes whose target does not come strictly after their
source. -/
structure Orders (nodes : List α) (edges : List (α × α)) (s : Schedule α) : Prop where
  nodup : s.order.Nodup
  complete : ∀ a, a ∈ s.order ↔ a ∈ nodes
  back : s.backEdges ~ edges.filter fun e =>
    e.1 ∈ nodes ∧ e.2 ∈ nodes ∧ ¬s.order.idxOf e.1 < s.order.idxOf e.2
  forward : ∀ e ∈ edges, e.1 ∈ nodes → e.2 ∈ nodes → e ∉ s.backEdges →
    s.order.idxOf e.1 < s.order.idxOf e.2

/-- The schedule of any nodes, edges and sources orders them. -/
theorem ofGraph_orders (nodes : List α) (edges : List (α × α)) (sources : List α) :
    Orders nodes edges (ofGraph nodes edges sources) := by
  refine ⟨nodup_order nodes edges sources, fun a => mem_order, ?_, ?_⟩
  · refine (backEdges_perm nodes edges sources).trans (List.Perm.of_eq ?_)
    rw [inside, List.filter_filter]
    apply List.filter_congr
    intro e _
    by_cases h1 : e.1 ∈ nodes <;> by_cases h2 : e.2 ∈ nodes <;> simp [h1, h2, pointsBack]
  · intro e he hsource htarget hback
    exact idxOf_lt_of_notMem_backEdges (mem_inside.mpr ⟨he, hsource, htarget⟩) hback

/-- A graph with a repeated node, a repeated edge, a loop and an edge that leaves the nodes. -/
theorem ofGraph_orders_loops :
    LawfulBEq String ∧
      Orders ["a", "b", "a", "c"]
        [("a", "b"), ("b", "a"), ("b", "b"), ("b", "a"), ("b", "c"), ("c", "x")]
        ⟨["b", "a", "c"], [("a", "b"), ("b", "b")]⟩ := by
  refine ⟨inferInstance, ?_⟩
  have h := ofGraph_orders ["a", "b", "a", "c"]
    [("a", "b"), ("b", "a"), ("b", "b"), ("b", "a"), ("b", "c"), ("c", "x")] ["c"]
  have hs : ofGraph ["a", "b", "a", "c"]
      [("a", "b"), ("b", "a"), ("b", "b"), ("b", "a"), ("b", "c"), ("c", "x")] ["c"] =
      ⟨["b", "a", "c"], [("a", "b"), ("b", "b")]⟩ := by decide
  rwa [hs] at h

end BlockNet.Schedule
