/-! # Ordering the nodes of a graph

Nodes are ordered by a depth-first walk over their edges, so that every edge points forward. An
edge into a node whose own walk is not over closes a cycle: it is reported as a back edge and
otherwise ignored, so a cyclic graph is ordered as well. The walk is a machine with an explicit
stack; a node is fresh, on the stack, or done. Nodes are told apart by `==` alone, which need not look
at all of a node: a node then shows as the edge that the walk came by spells it. -/

namespace BlockNet

/-- The members of a list, each once, at their first places. -/
def distinct {α : Type} [BEq α] : List α → List α
  | [] => []
  | a :: rest => a :: (distinct rest).filter (· != a)

/-- Membership is kept. -/
theorem mem_distinct {α : Type} [BEq α] [LawfulBEq α] {a : α} {xs : List α} :
    a ∈ distinct xs ↔ a ∈ xs := by
  induction xs with
  | nil => simp [distinct]
  | cons b rest ih =>
    by_cases h : a = b <;> simp [distinct, h, ih]

/-- Nothing comes twice. -/
theorem nodup_distinct {α : Type} [BEq α] [LawfulBEq α] (xs : List α) : (distinct xs).Nodup := by
  induction xs with
  | nil => simp [distinct]
  | cons a rest ih =>
    exact List.nodup_cons.2 ⟨by simp, List.Pairwise.filter _ ih⟩

theorem filter_distinct {α : Type} [BEq α] [LawfulBEq α] (p : α → Bool) (xs : List α) :
    (distinct xs).filter p = distinct (xs.filter p) := by
  induction xs with
  | nil => rfl
  | cons a xs ih =>
    have hcomm : ((distinct xs).filter (· != a)).filter p = ((distinct xs).filter p).filter (· != a) := by
      rw [List.filter_filter, List.filter_filter]
      exact List.filter_congr fun b _ => Bool.and_comm _ _
    rw [distinct, List.filter_cons, List.filter_cons, hcomm, ih]
    split
    · rfl
    · rename_i ha
      refine List.filter_eq_self.2 fun b hb => ?_
      have hp : p b = true := (List.mem_filter.1 (mem_distinct.1 hb)).2
      rw [bne_iff_ne]
      rintro rfl
      exact ha hp

/-- The members of the second list come behind those of the first, unless they are among them. -/
theorem distinct_append {α : Type} [BEq α] [LawfulBEq α] (xs ys : List α) :
    distinct (xs ++ ys) = distinct xs ++ (distinct ys).filter (!xs.contains ·) := by
  induction xs with
  | nil => exact (List.filter_eq_self.2 fun _ _ => rfl).symm
  | cons a xs ih =>
    rw [List.cons_append, distinct, distinct, ih, List.filter_append, List.cons_append,
      List.filter_filter]
    congr 2
    refine List.filter_congr fun b _ => ?_
    simp [bne]

/-- A member that has come before makes no difference. -/
theorem distinct_append_cons_of_mem {α : Type} [BEq α] [LawfulBEq α] {a : α} {front : List α}
    (h : a ∈ front) (back : List α) :
    distinct (front ++ a :: back) = distinct (front ++ back) := by
  rw [distinct_append, distinct_append, distinct, List.filter_cons_of_neg (by simpa using h),
    List.filter_filter]
  congr 1
  refine List.filter_congr fun b _ => ?_
  by_cases hb : b = a
  · simp [hb, h]
  · simp [hb]

/-- An order of nodes, and the edges that do not point forward in it. -/
structure Schedule (α : Type) where
  order : List α
  backEdges : List (α × α)
  deriving DecidableEq, Repr

/-- Does the graph have a cycle? -/
def Schedule.cycleDetected {α : Type} (s : Schedule α) : Bool := !s.backEdges.isEmpty

namespace Schedule

/-- A node on the stack with the children it has not looked at. -/
structure Frame (α : Type) where
  node : α
  rest : List α

/-- The state of a walk: the stack, innermost node first; the nodes done, last one first; and
the back edges, first one first. -/
structure Walk (α : Type) where
  stack : List (Frame α)
  done : List α
  back : List (α × α)

variable {α : Type} [BEq α]

/-- Is a node on the stack? -/
def Walk.active (w : Walk α) (a : α) : Bool := w.stack.any (·.node == a)

/-- Has the walk not met a node? -/
def Walk.fresh (w : Walk α) (a : α) : Bool := !w.active a && !w.done.contains a

/-- One step: the innermost node looks at its next child, or is done if it has none left. -/
def Walk.step (children : α → List α) (w : Walk α) : Walk α :=
  match w.stack with
  | [] => w
  | ⟨node, []⟩ :: stack => { w with stack, done := node :: w.done }
  | ⟨node, child :: rest⟩ :: stack =>
      let next := { w with stack := ⟨node, rest⟩ :: stack }
      if w.active child then { next with back := w.back ++ [(node, child)] }
      else if w.done.contains child then next
      else { next with stack := ⟨child, children child⟩ :: next.stack }

/-- Steps until the stack is empty, at most so many times. -/
def Walk.run (children : α → List α) : Nat → Walk α → Walk α
  | 0, w => w
  | fuel + 1, w => if w.stack.isEmpty then w else run children fuel (w.step children)

/-- Walks from a node unless the walk has met it. -/
def Walk.visit (children : α → List α) (fuel : Nat) (w : Walk α) (root : α) : Walk α :=
  if w.fresh root then run children fuel { w with stack := [⟨root, children root⟩] } else w

/-- The edges with both ends among the nodes. -/
def inside (ids : List α) (edges : List (α × α)) : List (α × α) :=
  edges.filter fun e => ids.contains e.1 && ids.contains e.2

/-- The ends of the edges out of a node, last edge first, so that the order of the edges is the
order in the schedule. -/
def children (edges : List (α × α)) (a : α) : List α :=
  ((edges.filter (·.1 == a)).map (·.2)).reverse

/-- The nodes to start from: those without an edge into them, and given sources. -/
def roots (ids : List α) (edges : List (α × α)) (sources : List α) : List α :=
  ids.filter fun a => !edges.any (·.2 == a) || sources.contains a

/-- The schedule of nodes, which may repeat, under edges, of which those that leave the nodes
are ignored. Roots are walked last to first, then whatever is left. -/
def ofGraph (nodes : List α) (edges : List (α × α)) (sources : List α) : Schedule α :=
  let ids := distinct nodes
  let edges := inside ids edges
  let fuel := ids.length + edges.length
  let walk := ((roots ids edges sources).reverse ++ ids.reverse).foldl
    (Walk.visit (children edges) fuel) ⟨[], [], []⟩
  ⟨walk.done, walk.back⟩

end Schedule

end BlockNet
