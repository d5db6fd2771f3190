import BlockNet.Proofs.Schedule.Order
import Mathlib.Data.List.Induction
import Mathlib.Data.List.Nodup

/-! # The laps of a walk

A visit goes round its loop until the stack is empty, and nothing else ends it. In a lap the innermost
node is popped, or it looks at one more of its edges. The edges looked at and those that the stack has
still to look at are together the edges out of all nodes met, occurrence by occurrence. So the visits
end, and over all of them every node is popped once and every edge between nodes is looked at once. -/

namespace BlockNet.Schedule

open List

variable {α : Type}

/-! ## Laps -/

/-- What a lap of the loop does: it pops the innermost node, or it looks at an edge out of that node. The
edge is named with the number of edges before it that leave the node. -/
inductive Lap (α : Type) where
  | pop (node : α)
  | look (edge : α × α) (before : Nat)
  deriving DecidableEq, Repr

/-- The node that a lap pops. -/
def Lap.popped : Lap α → Option α
  | .pop node => some node
  | .look _ _ => none

/-- The edge that a lap looks at, with its number. -/
def Lap.looked : Lap α → Option ((α × α) × Nat)
  | .pop _ => none
  | .look edge before => some (edge, before)

/-- Every lap pops a node or looks at an edge. -/
theorem length_laps (laps : List (Lap α)) :
    laps.length = (laps.filterMap Lap.popped).length + (laps.filterMap Lap.looked).length := by
  induction laps with
  | nil => rfl
  | cons lap laps ih =>
      cases lap <;>
        simp only [List.filterMap_cons, Lap.popped, Lap.looked, List.length_cons, ih] <;> omega

/-- The lap that a frame makes when it is innermost. Edges are looked at last to first, so that as many
stand before one as are still to be looked at behind it. -/
def Frame.lap : Frame α → Lap α
  | ⟨node, []⟩ => .pop node
  | ⟨node, child :: rest⟩ => .look (node, child) rest.length

variable [BEq α]

/-- The laps that the loop of a visit makes until the stack is empty, and the walk that it leaves. -/
inductive Walk.Laps (next : α → List α) : Walk α → List (Lap α) → Walk α → Prop
  | empty {w : Walk α} (h : w.stack = []) : Laps next w [] w
  | lap {w w' : Walk α} {frame : Frame α} {stack : List (Frame α)} {laps : List (Lap α)}
      (h : w.stack = frame :: stack) (hlaps : Laps next (w.step next) laps w') :
      Laps next w (frame.lap :: laps) w'

/-- The laps of a visit from each of the starts that the walk has not met by then. -/
inductive Walk.Visits (next : α → List α) : Walk α → List α → List (Lap α) → Walk α → Prop
  | nil (w : Walk α) : Visits next w [] [] w
  | met {w w' : Walk α} {root : α} {roots : List α} {laps : List (Lap α)}
      (h : w.fresh root = false) (hvisits : Visits next w roots laps w') :
      Visits next w (root :: roots) laps w'
  | fresh {w w' w'' : Walk α} {root : α} {roots : List α} {laps later : List (Lap α)}
      (h : w.fresh root = true)
      (hlaps : Laps next { w with stack := [⟨root, next root⟩] } laps w')
      (hvisits : Visits next w' roots later w'') :
      Visits next w (root :: roots) (laps ++ later) w''

/-- The laps of all visits to nodes, and the schedule that comes of them. -/
def Traversal (nodes : List α) (edges : List (α × α)) (sources : List α) (laps : List (Lap α))
    (s : Schedule α) : Prop :=
  ∃ w : Walk α, Walk.Visits (children (inside nodes edges)) ⟨[], [], []⟩
    (starts nodes edges sources) laps w ∧ s = ⟨w.done, w.back⟩

/-! ## A walk goes one way -/

variable {next : α → List α} {w w₁ w₂ : Walk α} {laps laps₁ laps₂ : List (Lap α)}

theorem Walk.Laps.stack (h : Laps next w laps w₁) : w₁.stack = [] := by
  induction h with
  | empty h => exact h
  | lap _ _ ih => exact ih

theorem Walk.Laps.unique (h₁ : Laps next w laps₁ w₁) (h₂ : Laps next w laps₂ w₂) :
    laps₂ = laps₁ ∧ w₂ = w₁ := by
  induction h₁ generalizing laps₂ with
  | empty h =>
      cases h₂ with
      | empty _ => exact ⟨rfl, rfl⟩
      | lap h' _ => rw [h] at h'; contradiction
  | lap h _ ih =>
      cases h₂ with
      | empty h' => rw [h] at h'; contradiction
      | lap h' hlaps =>
          obtain ⟨rfl, rfl⟩ := List.cons.inj (h.symm.trans h')
          obtain ⟨rfl, rfl⟩ := ih hlaps
          exact ⟨rfl, rfl⟩

theorem Walk.Visits.unique {starts : List α} (h₁ : Visits next w starts laps₁ w₁)
    (h₂ : Visits next w starts laps₂ w₂) : laps₂ = laps₁ ∧ w₂ = w₁ := by
  induction h₁ generalizing laps₂ with
  | nil w =>
      cases h₂
      exact ⟨rfl, rfl⟩
  | met h _ ih =>
      cases h₂ with
      | met _ hvisits => exact ih hvisits
      | fresh h' _ _ => rw [h] at h'; contradiction
  | fresh h hlaps _ ih =>
      cases h₂ with
      | met h' _ => rw [h] at h'; contradiction
      | fresh _ hlaps' hvisits =>
          obtain ⟨rfl, rfl⟩ := hlaps.unique hlaps'
          obtain ⟨rfl, rfl⟩ := ih hvisits
          exact ⟨rfl, rfl⟩

/-! ## The visits end -/

/-- A bounded run that empties the stack is the whole loop. -/
theorem Walk.exists_laps (fuel : Nat) (h : (run next fuel w).stack = []) :
    ∃ laps, Laps next w laps (run next fuel w) := by
  induction fuel generalizing w with
  | zero => exact ⟨[], .empty h⟩
  | succ fuel ih =>
      rw [run] at h ⊢
      cases hstack : w.stack with
      | nil =>
          simp only [List.isEmpty_nil, if_true]
          exact ⟨[], .empty hstack⟩
      | cons frame stack =>
          simp only [hstack, List.isEmpty_cons, Bool.false_eq_true, if_false] at h ⊢
          obtain ⟨laps, hlaps⟩ := ih h
          exact ⟨frame.lap :: laps, .lap hstack hlaps⟩

theorem Walk.Rested.exists_visits [LawfulBEq α] {ids : List α} {edges : List (α × α)}
    (hin : ∀ e ∈ edges, e.2 ∈ ids) (h : w.Rested ids edges) (starts : List α)
    (hstarts : ∀ a ∈ starts, a ∈ ids) :
    ∃ laps, Visits (children edges) w starts laps
      (starts.foldl (Walk.visit (children edges) (ids.length + edges.length)) w) := by
  induction starts generalizing w with
  | nil => exact ⟨[], .nil w⟩
  | cons root starts ih =>
      -- The bound of a visit is met before it is reached, so the bounded visit is the loop.
      obtain ⟨hrested, -, -⟩ := h.visit hin (hstarts root List.mem_cons_self)
      obtain ⟨later, hlater⟩ := ih hrested fun a ha => hstarts a (List.mem_cons_of_mem root ha)
      rw [List.foldl_cons]
      cases hfresh : w.fresh root with
      | false =>
          simp only [Walk.visit, hfresh, Bool.false_eq_true, if_false] at hlater ⊢
          exact ⟨later, .met hfresh hlater⟩
      | true =>
          have hstack := hrested.stack
          simp only [Walk.visit, hfresh, if_true] at hstack hlater ⊢
          obtain ⟨laps, hlaps⟩ := exists_laps _ hstack
          exact ⟨laps ++ later, .fresh hfresh hlaps hlater⟩

/-- The visits that make a schedule all end. -/
theorem exists_traversal [LawfulBEq α] (nodes : List α) (edges : List (α × α))
    (sources : List α) :
    ∃ laps, Traversal nodes edges sources laps (ofGraph nodes edges sources) := by
  obtain ⟨laps, hvisits⟩ :=
    Walk.rested_start.exists_visits target_mem_distinct (starts nodes edges sources) starts_subset
  refine ⟨laps, _, hvisits, ?_⟩
  simp only [ofGraph, inside_distinct]
  rfl

/-! ## Occurrences of edges -/

/-- The members of a list, each with the number of those behind it. -/
def countdown {β : Type} : List β → List (β × Nat)
  | [] => []
  | b :: bs => (b, bs.length) :: countdown bs

/-- The edges, each with the number of edges before it that leave the same node. -/
def ranked (edges : List (α × α)) : List ((α × α) × Nat) :=
  edges.mapIdx fun i e => (e, (edges.take i).countP (·.1 == e.1))

theorem length_ranked (edges : List (α × α)) : (ranked edges).length = edges.length :=
  List.length_mapIdx

theorem map_fst_ranked (edges : List (α × α)) : (ranked edges).map (·.1) = edges :=
  List.ext_getElem (by simp [length_ranked]) (by simp [ranked])

theorem ranked_concat (edges : List (α × α)) (e : α × α) :
    ranked (edges ++ [e]) = ranked edges ++ [(e, edges.countP (·.1 == e.1))] := by
  rw [ranked, List.mapIdx_concat, ranked, List.take_left]
  congr 1
  rw [List.mapIdx_eq_mapIdx_iff]
  intro i hi
  rw [List.take_append_of_le_length (Nat.le_of_lt hi)]

variable [LawfulBEq α]

theorem lt_of_mem_ranked {edges : List (α × α)} {x : (α × α) × Nat} (h : x ∈ ranked edges) :
    x.2 < edges.countP (·.1 == x.1.1) := by
  -- From the end: the number of an edge depends on nothing behind it.
  induction edges using List.reverseRecOn with
  | nil => simp [ranked] at h
  | append_singleton edges e ih =>
      rw [ranked_concat, List.mem_append, List.mem_singleton] at h
      rw [List.countP_append]
      rcases h with h | rfl
      · exact Nat.lt_add_right _ (ih h)
      · simp

/-- The number tells an edge from its other occurrences. -/
theorem nodup_ranked (edges : List (α × α)) : (ranked edges).Nodup := by
  induction edges using List.reverseRecOn with
  | nil => simp [ranked]
  | append_singleton edges e ih =>
      rw [ranked_concat, ← List.concat_eq_append, List.nodup_concat]
      exact ⟨fun h => Nat.lt_irrefl _ (lt_of_mem_ranked h), ih⟩

/-- A node looks at the edges out of it in order, last one first. -/
theorem countdown_outgoing_perm (edges : List (α × α)) (a : α) :
    countdown (outgoing edges a) ~ (ranked edges).filter (·.1.1 == a) := by
  induction edges using List.reverseRecOn with
  | nil => simp [ranked, outgoing, children, countdown]
  | append_singleton edges e ih =>
      rw [ranked_concat, List.filter_append]
      by_cases he : e.1 = a
      · have hout : outgoing (edges ++ [e]) a = e :: outgoing edges a := by
          simp [outgoing, children, ← he]
        have hlength : (outgoing edges a).length = edges.countP (·.1 == e.1) := by
          rw [(outgoing_perm edges a).length_eq, List.countP_eq_length_filter, he]
        rw [hout, countdown, hlength, List.filter_cons_of_pos (by simpa using he), List.filter_nil]
        exact (ih.cons _).trans (List.perm_append_singleton _ _).symm
      · have hout : outgoing (edges ++ [e]) a = outgoing edges a := by
          simp [outgoing, children, he]
        rw [hout, List.filter_cons_of_neg (by simpa using he), List.filter_nil, List.append_nil]
        exact ih

/-- What is looked at from nodes that hold all sources of edges is each edge, once. -/
theorem flatMap_countdown_perm {nodes : List α} (hnodes : nodes.Nodup) {edges : List (α × α)}
    (hedges : ∀ e ∈ edges, e.1 ∈ nodes) :
    (nodes.flatMap fun a => countdown (outgoing edges a)) ~ ranked edges := by
  have hall : (ranked edges).filter (fun x => nodes.contains x.1.1) = ranked edges := by
    refine List.filter_eq_self.mpr fun x hx => ?_
    have hx : x.1 ∈ edges := map_fst_ranked edges ▸ List.mem_map_of_mem hx
    simpa using hedges x.1 hx
  calc
    (nodes.flatMap fun a => countdown (outgoing edges a)) ~
        nodes.flatMap fun a => (ranked edges).filter (·.1.1 == a) :=
      List.Perm.flatMap_left nodes fun a _ => countdown_outgoing_perm edges a
    _ ~ (ranked edges).filter (fun x => nodes.contains x.1.1) :=
      flatMap_filter_perm (·.1.1) (ranked edges) hnodes
    _ = ranked edges := hall

/-! ## The account of a walk -/

/-- The edges that the nodes on the stack have still to look at, and how many stand before each. -/
def Walk.ahead (w : Walk α) : List ((α × α) × Nat) := w.stack.flatMap (countdown ·.waiting)

omit [BEq α] in
theorem ahead_look (node child : α) (rest : List α) (stack : List (Frame α)) (done done' : List α)
    (back back' : List (α × α)) :
    Walk.ahead ⟨⟨node, child :: rest⟩ :: stack, done, back⟩ =
      ((node, child), rest.length) :: Walk.ahead ⟨⟨node, rest⟩ :: stack, done', back'⟩ := by
  simp [Walk.ahead, Frame.waiting, countdown]

/-- What holds of a walk that has made the laps `past`. -/
structure Walk.Tally (edges : List (α × α)) (past : List (Lap α)) (w : Walk α) : Prop where
  popped : past.filterMap Lap.popped = w.done.reverse
  looked : past.filterMap Lap.looked ++ w.ahead ~ w.line.flatMap (countdown <| outgoing edges ·)

variable {edges : List (α × α)} {past : List (Lap α)}

omit [LawfulBEq α] in
/-- A lap that meets no node. -/
theorem Walk.Tally.keep (h : w.Tally edges past) {lap : Lap α} (hline : w₁.line = w.line)
    (hpopped : w.done.reverse ++ lap.popped.toList = w₁.done.reverse)
    (hahead : lap.looked.toList ++ w₁.ahead = w.ahead) : w₁.Tally edges (past ++ [lap]) := by
  refine ⟨?_, ?_⟩
  · rw [List.filterMap_append, h.popped, ← hpopped]
    cases lap <;> rfl
  · have hlap : [lap].filterMap Lap.looked = lap.looked.toList := by cases lap <;> rfl
    rw [List.filterMap_append, hlap, List.append_assoc, hahead, hline]
    exact h.looked

omit [LawfulBEq α] in
/-- A node comes into the line, met on its own or by laps that look at edges. -/
theorem Walk.Tally.meet (h : w.Tally edges past) {c : α} {laps : List (Lap α)}
    (hline : w₁.line ~ c :: w.line) (hdone : w₁.done = w.done)
    (hpopped : laps.filterMap Lap.popped = [])
    (hahead : laps.filterMap Lap.looked ++ w₁.ahead ~ countdown (outgoing edges c) ++ w.ahead) :
    w₁.Tally edges (past ++ laps) := by
  refine ⟨?_, ?_⟩
  · rw [List.filterMap_append, hpopped, List.append_nil, hdone, h.popped]
  · calc
      (past ++ laps).filterMap Lap.looked ++ w₁.ahead =
          past.filterMap Lap.looked ++ (laps.filterMap Lap.looked ++ w₁.ahead) := by
        rw [List.filterMap_append, List.append_assoc]
      _ ~ past.filterMap Lap.looked ++ (countdown (outgoing edges c) ++ w.ahead) :=
        hahead.append_left _
      _ ~ countdown (outgoing edges c) ++ (past.filterMap Lap.looked ++ w.ahead) :=
        List.perm_append_comm_assoc _ _ _
      _ ~ countdown (outgoing edges c) ++ w.line.flatMap (countdown <| outgoing edges ·) :=
        h.looked.append_left _
      _ = (c :: w.line).flatMap (countdown <| outgoing edges ·) := by rw [List.flatMap_cons]
      _ ~ w₁.line.flatMap (countdown <| outgoing edges ·) := (hline.flatMap_right _).symm

omit [LawfulBEq α] in
/-- Every move is a lap of the innermost frame, and the account goes on. -/
theorem Walk.Tally.move (h : w.Tally edges past) {frame : Frame α} {stack : List (Frame α)}
    (hstack : w.stack = frame :: stack) (hm : Move (children edges) w w₁) :
    w₁.Tally edges (past ++ [frame.lap]) := by
  -- Only an `enter` meets a node; all other moves leave the line as it is.
  cases hm with
  | finish node stack done back =>
      obtain ⟨rfl, rfl⟩ := List.cons.inj hstack
      exact h.keep (by simp [Walk.line, Walk.path, trail]) List.reverse_cons.symm rfl
  | close node child rest stack done back hpath =>
      obtain ⟨rfl, rfl⟩ := List.cons.inj hstack
      exact h.keep rfl (List.append_nil _) (ahead_look ..).symm
  | pass node child rest stack done back hpath hdone =>
      obtain ⟨rfl, rfl⟩ := List.cons.inj hstack
      exact h.keep rfl (List.append_nil _) (ahead_look ..).symm
  | enter node child rest stack done back hfresh =>
      obtain ⟨rfl, rfl⟩ := List.cons.inj hstack
      refine h.meet (c := child) ?_ rfl rfl ?_
      · have hline : Walk.line ⟨⟨child, children edges child⟩ :: ⟨node, rest⟩ :: stack, done, back⟩ =
            (trail stack ++ [node]) ++ child :: done := by
          simp [Walk.line, Walk.path, trail]
        rw [hline]
        exact List.perm_middle
      · rw [ahead_look node child rest stack done done back back]
        exact List.perm_append_comm_assoc [((node, child), rest.length)] _ _

theorem Walk.Tally.loop (h : w.Tally edges past) (hlaps : Laps (children edges) w laps w₁) :
    w₁.Tally edges (past ++ laps) := by
  induction hlaps generalizing past with
  | empty _ => rwa [List.append_nil]
  | lap hstack _ ih =>
      have hmove := h.move hstack (Walk.step_move _ (hstack ▸ List.cons_ne_nil _ _))
      simpa using ih hmove

theorem Walk.Tally.visits {starts : List α} (h : w.Tally edges past) (hstack : w.stack = [])
    (hvisits : Visits (children edges) w starts laps w₁) :
    w₁.Tally edges (past ++ laps) ∧ w₁.stack = [] := by
  induction hvisits generalizing past with
  | nil w => exact ⟨by rwa [List.append_nil], hstack⟩
  | met _ _ ih => exact ih h hstack
  | @fresh w w' w'' root roots laps later _ hlaps _ ih =>
      have hroot : Walk.Tally edges (past ++ [])
          { w with stack := [⟨root, children edges root⟩] } := by
        refine h.meet (c := root) ?_ rfl rfl ?_
        · simp [Walk.line, Walk.path, trail, hstack]
        · simp [Walk.ahead, Frame.waiting, outgoing, hstack]
      rw [List.append_nil] at hroot
      rw [← List.append_assoc]
      exact ih (hroot.loop hlaps) hlaps.stack

/-! ## All visits together -/

/-- What the laps of all visits owe to nodes and edges: there is one for every node and one for every
edge between nodes, every node is popped once, and every occurrence of an edge is looked at once. -/
structure Exhausts (nodes : List α) (edges : List (α × α)) (laps : List (Lap α)) : Prop where
  length : laps.length = (distinct nodes).length + (inside nodes edges).length
  popped : laps.filterMap Lap.popped ~ distinct nodes
  looked : laps.filterMap Lap.looked ~ ranked (inside nodes edges)
  once : (laps.filterMap Lap.popped).Nodup ∧ (laps.filterMap Lap.looked).Nodup

theorem Traversal.tally {nodes sources : List α} {s : Schedule α}
    (h : Traversal nodes edges sources laps s) :
    laps.filterMap Lap.popped = s.order.reverse ∧
      laps.filterMap Lap.looked ~
        s.order.flatMap (countdown <| outgoing (inside nodes edges) ·) := by
  obtain ⟨w, hvisits, rfl⟩ := h
  have hstart : (⟨[], [], []⟩ : Walk α).Tally (inside nodes edges) [] := ⟨rfl, by rfl⟩
  obtain ⟨htally, hstack⟩ := hstart.visits rfl hvisits
  refine ⟨htally.popped, ?_⟩
  simpa [Walk.ahead, Walk.line, Walk.path, trail, hstack] using htally.looked

/-- Whatever the nodes, edges and sources are, the visits end: there is just one way round the loop, it
makes the schedule, and it has a lap for every node and for every edge between nodes and no others. -/
theorem traversal_exhausts (nodes : List α) (edges : List (α × α)) (sources : List α) :
    ∃ laps, (∀ laps' s, Traversal nodes edges sources laps' s ↔
        laps' = laps ∧ s = ofGraph nodes edges sources) ∧
      Exhausts nodes edges laps := by
  obtain ⟨laps, htraversal⟩ := exists_traversal nodes edges sources
  obtain ⟨hpopped, hlooked⟩ := htraversal.tally
  have hnodup := nodup_order nodes edges sources
  have hpops : laps.filterMap Lap.popped ~ distinct nodes := by
    rw [hpopped]
    refine (List.reverse_perm _).trans ?_
    rw [List.perm_ext_iff_of_nodup hnodup (nodup_distinct nodes)]
    exact fun a => mem_order.trans mem_distinct.symm
  have hlooks : laps.filterMap Lap.looked ~ ranked (inside nodes edges) :=
    hlooked.trans (flatMap_countdown_perm hnodup fun e he => mem_order.mpr (mem_inside.mp he).2.1)
  refine ⟨laps, fun laps' s => ⟨?_, ?_⟩, ?_, hpops, hlooks, ?_, ?_⟩
  · rintro ⟨w', hvisits', rfl⟩
    obtain ⟨w, hvisits, hs⟩ := htraversal
    obtain ⟨rfl, rfl⟩ := hvisits.unique hvisits'
    exact ⟨rfl, hs.symm⟩
  · rintro ⟨rfl, rfl⟩
    exact htraversal
  · rw [length_laps, hpops.length_eq, hlooks.length_eq, length_ranked]
  · exact hpops.nodup_iff.mpr (nodup_distinct nodes)
  · exact hlooks.nodup_iff.mpr (nodup_ranked _)

/-- A graph with a repeated node, a repeated edge, a loop and an edge that leaves the nodes. -/
theorem traversal_exhausts_loops :
    let edges := [("a", "b"), ("b", "a"), ("b", "b"), ("b", "a"), ("b", "c"), ("c", "x")]
    LawfulBEq String ∧
      ∃ laps, (∀ laps' s, Traversal ["a", "b", "a", "c"] edges ["c"] laps' s ↔
          laps' = laps ∧ s = ⟨["b", "a", "c"], [("a", "b"), ("b", "b")]⟩) ∧
        laps.length = 3 + 5 ∧ laps.filterMap Lap.popped ~ ["a", "b", "c"] ∧
        laps.filterMap Lap.looked ~
          [(("a", "b"), 0), (("b", "a"), 0), (("b", "b"), 1), (("b", "a"), 2), (("b", "c"), 3)] := by
  intro edges
  obtain ⟨laps, hlaps, hexhausts⟩ := traversal_exhausts ["a", "b", "a", "c"] edges ["c"]
  have hs : ofGraph ["a", "b", "a", "c"] edges ["c"] =
      ⟨["b", "a", "c"], [("a", "b"), ("b", "b")]⟩ := by decide
  rw [hs] at hlaps
  exact ⟨inferInstance, laps, hlaps, hexhausts.length, hexhausts.popped, hexhausts.looked⟩

end BlockNet.Schedule
