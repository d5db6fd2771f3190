import BlockNet.Proofs.Schedule.Order
import Mathlib.Data.List.Chain

/-! # Cycles

The stack of a walk spells a path of edges, so an edge into the stack closes a cycle. Where no edge
closes a cycle all edges point forward, and a cycle is impossible. -/

namespace BlockNet.Schedule

open List Relation

variable {α : Type} [BEq α] [LawfulBEq α]

/-- One edge leads from a node to another, or to itself. -/
def Linked (edges : List (α × α)) (a b : α) : Prop := (a, b) ∈ edges

/-! ## The path on the stack -/

/-- Every node on the stack was entered by an edge from the node below it, and every back edge
closes a cycle. -/
structure Walk.Threaded (edges : List (α × α)) (w : Walk α) : Prop where
  thread : (w.stack.map (·.node)).IsChain fun a b => Linked edges b a
  waiting : ∀ f ∈ w.stack, ∀ child ∈ f.rest, Linked edges f.node child
  closed : ∀ e ∈ w.back, Linked edges e.1 e.2 ∧ ReflTransGen (Linked edges) e.2 e.1

omit [BEq α] [LawfulBEq α] in
/-- From every node on the stack a path leads to the innermost one. -/
theorem reflTransGen_of_mem_trail {edges : List (α × α)} {f : Frame α} {stack : List (Frame α)}
    (h : ((f :: stack).map (·.node)).IsChain fun a b => Linked edges b a) {a : α}
    (ha : a ∈ trail (f :: stack)) : ReflTransGen (Linked edges) a f.node := by
  induction stack generalizing f with
  | nil =>
      rw [List.mem_singleton.mp ha]
  | cons g stack ih =>
      obtain ⟨hlink, htail⟩ := List.isChain_cons_cons.mp h
      rw [trail, List.mem_append, List.mem_singleton] at ha
      rcases ha with ha | rfl
      · exact (ih htail ha).tail hlink
      · exact ReflTransGen.refl

theorem linked_of_mem_children {edges : List (α × α)} {a b : α} (h : b ∈ children edges a) :
    Linked edges a b := by
  simp only [children, List.mem_reverse, List.mem_map, List.mem_filter, beq_iff_eq] at h
  obtain ⟨e, ⟨he, rfl⟩, rfl⟩ := h
  exact he

theorem Walk.Threaded.move {edges : List (α × α)} {w w' : Walk α} (h : w.Threaded edges)
    (hm : Move (children edges) w w') : w'.Threaded edges := by
  cases hm with
  | finish node stack done back =>
      exact ⟨h.thread.tail, fun f hf => h.waiting f (List.mem_cons_of_mem _ hf), h.closed⟩
  | close node child rest stack done back hpath =>
      have hlink := h.waiting _ List.mem_cons_self child List.mem_cons_self
      refine ⟨h.thread, ?_, ?_⟩
      · rintro f hf
        rcases List.mem_cons.mp hf with rfl | hf
        · exact fun c hc => h.waiting _ List.mem_cons_self c (List.mem_cons_of_mem child hc)
        · exact h.waiting f (List.mem_cons_of_mem _ hf)
      · intro e he
        rcases List.mem_append.mp he with he | he
        · exact h.closed e he
        · rw [List.mem_singleton.mp he]
          exact ⟨hlink, reflTransGen_of_mem_trail h.thread hpath⟩
  | pass node child rest stack done back hpath hdone =>
      refine ⟨h.thread, ?_, h.closed⟩
      intro f hf
      rcases List.mem_cons.mp hf with rfl | hf
      · exact fun c hc => h.waiting _ List.mem_cons_self c (List.mem_cons_of_mem child hc)
      · exact h.waiting f (List.mem_cons_of_mem _ hf)
  | enter node child rest stack done back hfresh =>
      have hlink := h.waiting _ List.mem_cons_self child List.mem_cons_self
      refine ⟨List.isChain_cons_cons.mpr ⟨hlink, h.thread⟩, ?_, h.closed⟩
      intro f hf
      rcases List.mem_cons.mp hf with rfl | hf
      · exact fun c hc => linked_of_mem_children hc
      rcases List.mem_cons.mp hf with rfl | hf
      · exact fun c hc => h.waiting _ List.mem_cons_self c (List.mem_cons_of_mem child hc)
      · exact h.waiting f (List.mem_cons_of_mem _ hf)

theorem Walk.Threaded.run {edges : List (α × α)} {w : Walk α} (h : w.Threaded edges)
    (fuel : Nat) : (Walk.run (children edges) fuel w).Threaded edges := by
  induction fuel generalizing w with
  | zero => exact h
  | succ fuel ih =>
      by_cases hstack : w.stack = []
      · simpa [Walk.run, hstack] using h
      · have hempty : w.stack.isEmpty = false := by simpa using hstack
        simp only [Walk.run, hempty, Bool.false_eq_true, if_false]
        exact ih (h.move (w.step_move _ hstack))

theorem Walk.Threaded.visit {edges : List (α × α)} {w : Walk α} (h : w.Threaded edges)
    (fuel : Nat) (root : α) : (w.visit (children edges) fuel root).Threaded edges := by
  rw [Walk.visit]
  split
  · have hstart : Walk.Threaded edges { w with stack := [⟨root, children edges root⟩] } := by
      refine ⟨List.IsChain.singleton root, ?_, h.closed⟩
      intro f hf
      rw [List.mem_singleton.mp hf]
      exact fun c hc => linked_of_mem_children hc
    exact hstart.run fuel
  · exact h

theorem Walk.Threaded.visits {edges : List (α × α)} {w : Walk α} (h : w.Threaded edges)
    (fuel : Nat) (starts : List α) :
    (starts.foldl (Walk.visit (children edges) fuel) w).Threaded edges := by
  induction starts generalizing w with
  | nil => exact h
  | cons root starts ih => exact ih (h.visit fuel root)

/-! ## Back edges and cycles -/

/-- The edges between nodes, as a relation. -/
abbrev Joined (nodes : List α) (edges : List (α × α)) : α → α → Prop :=
  Linked (inside nodes edges)

/-- Every back edge lies on a cycle: a path leads from its target to its source. -/
theorem reflTransGen_of_mem_backEdges {nodes : List α} {edges : List (α × α)} {sources : List α}
    {e : α × α} (he : e ∈ (ofGraph nodes edges sources).backEdges) :
    Joined nodes edges e.1 e.2 ∧ ReflTransGen (Joined nodes edges) e.2 e.1 := by
  have hstart : (⟨[], [], []⟩ : Walk α).Threaded (inside nodes edges) :=
    ⟨List.IsChain.nil, by simp, by simp⟩
  simp only [ofGraph, inside_distinct] at he
  exact (hstart.visits _ _).closed e he

/-- Without back edges every path leads forward in the order. -/
theorem idxOf_lt_of_transGen {nodes : List α} {edges : List (α × α)} {sources : List α}
    (hback : (ofGraph nodes edges sources).backEdges = []) {a b : α}
    (h : TransGen (Joined nodes edges) a b) :
    (ofGraph nodes edges sources).order.idxOf a < (ofGraph nodes edges sources).order.idxOf b := by
  have hedge : ∀ {a b}, Joined nodes edges a b →
      (ofGraph nodes edges sources).order.idxOf a <
        (ofGraph nodes edges sources).order.idxOf b := by
    intro a b hab
    refine idxOf_lt_of_notMem_backEdges hab ?_
    rw [hback]
    exact List.not_mem_nil
  induction h with
  | single hab => exact hedge hab
  | tail _ hbc ih => exact ih.trans (hedge hbc)

omit [BEq α] [LawfulBEq α] in
theorem cycleDetected_iff_ne_nil (s : Schedule α) :
    s.cycleDetected = true ↔ s.backEdges ≠ [] := by
  simp [cycleDetected]

/-- A schedule reports a cycle if and only if the edges between its nodes have one. -/
theorem cycleDetected_ofGraph (nodes : List α) (edges : List (α × α)) (sources : List α) :
    (ofGraph nodes edges sources).cycleDetected = true ↔
      ∃ a, TransGen (Joined nodes edges) a a := by
  rw [cycleDetected_iff_ne_nil]
  constructor
  · intro hback
    obtain ⟨e, he⟩ := List.exists_mem_of_ne_nil _ hback
    obtain ⟨hlink, hpath⟩ := reflTransGen_of_mem_backEdges he
    exact ⟨e.1, TransGen.head' hlink hpath⟩
  · rintro ⟨a, ha⟩ hback
    exact lt_irrefl _ (idxOf_lt_of_transGen hback ha)

end BlockNet.Schedule
