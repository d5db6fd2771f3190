import BlockNet.Schedule
import Mathlib.Data.List.Perm.Subperm

/-! # What a depth-first walk keeps

The nodes that a walk has met stand in a line: the path on the stack, outermost node first, and
behind it the nodes done, last one first. Finishing a node leaves the line as it is, and a new node
comes in between the path and the nodes done. So two nodes of the line never change places, and
whether an edge points forward is settled when the walk looks at it. -/

namespace BlockNet.Schedule

open List

variable {α : Type} [BEq α]

/-! ## Edges out of a node -/

/-- The edges out of a node, last edge first. -/
def outgoing (edges : List (α × α)) (a : α) : List (α × α) := (children edges a).map (a, ·)

theorem outgoing_perm [LawfulBEq α] (edges : List (α × α)) (a : α) :
    outgoing edges a ~ edges.filter (·.1 == a) := by
  have hback : ((edges.filter (·.1 == a)).map (·.2)).map (a, ·) = edges.filter (·.1 == a) := by
    rw [List.map_map]
    calc
      (edges.filter (·.1 == a)).map ((a, ·) ∘ (·.2)) = (edges.filter (·.1 == a)).map id := by
        apply List.map_congr_left
        intro e he
        have ha : e.1 = a := by simpa using (List.mem_filter.mp he).2
        exact Prod.ext ha.symm rfl
      _ = edges.filter (·.1 == a) := List.map_id _
  rw [outgoing, children, List.map_reverse, hback]
  exact List.reverse_perm _

theorem mem_outgoing [LawfulBEq α] {edges : List (α × α)} {a : α} {e : α × α} :
    e ∈ outgoing edges a ↔ e ∈ edges ∧ e.1 = a := by
  rw [(outgoing_perm edges a).mem_iff, List.mem_filter, beq_iff_eq]

/-- Members chosen by distinct keys, one key after the other, are the members with such a key. -/
theorem flatMap_filter_perm [LawfulBEq α] {β : Type} (key : β → α) (xs : List β) {keys : List α}
    (h : keys.Nodup) :
    (keys.flatMap fun a => xs.filter (key · == a)) ~ xs.filter fun x => keys.contains (key x) := by
  induction keys with
  | nil => simp
  | cons a keys ih =>
      obtain ⟨ha, hkeys⟩ := List.nodup_cons.mp h
      have hfirst : (xs.filter fun x => (a :: keys).contains (key x)).filter (key · == a) =
          xs.filter (key · == a) := by
        rw [List.filter_filter]
        apply List.filter_congr
        intro x _
        by_cases hx : key x = a <;> simp [hx]
      have hrest : (xs.filter fun x => (a :: keys).contains (key x)).filter (fun x => !(key x == a)) =
          xs.filter fun x => keys.contains (key x) := by
        rw [List.filter_filter]
        apply List.filter_congr
        intro x _
        by_cases hx : key x = a
        · simp [hx, ha]
        · simp [hx]
      have hsplit := List.filter_append_perm (key · == a)
        (xs.filter fun x => (a :: keys).contains (key x))
      rw [hfirst, hrest] at hsplit
      exact ((ih hkeys).append_left _).trans hsplit

/-- The edges out of distinct nodes are, occurrence by occurrence, the edges that start there. -/
theorem flatMap_outgoing_perm [LawfulBEq α] (edges : List (α × α)) {nodes : List α}
    (h : nodes.Nodup) :
    nodes.flatMap (outgoing edges) ~ edges.filter fun e => nodes.contains e.1 :=
  (List.Perm.flatMap_left nodes fun a _ => outgoing_perm edges a).trans
    (flatMap_filter_perm (·.1) edges h)

/-! ## Edges that point back -/

/-- The target of the edge does not come strictly after its source in the order. -/
def pointsBack (order : List α) (e : α × α) : Bool := order.idxOf e.2 ≤ order.idxOf e.1

/-- A node that comes in anywhere leaves the edges between other nodes as they point. -/
theorem pointsBack_insert [LawfulBEq α] (front back : List α) {c : α} {e : α × α}
    (hsource : e.1 ≠ c) (htarget : e.2 ≠ c) :
    pointsBack (front ++ c :: back) e = pointsBack (front ++ back) e := by
  have hplace : ∀ {a}, a ≠ c → ((front ++ c :: back).idxOf a = (front ++ back).idxOf a ∧
        (front ++ back).idxOf a < front.length) ∨
      ((front ++ c :: back).idxOf a = (front ++ back).idxOf a + 1 ∧
        front.length ≤ (front ++ back).idxOf a) := by
    intro a ha
    by_cases hfront : a ∈ front
    · left
      simp [List.idxOf_append, hfront, List.idxOf_lt_length_of_mem hfront]
    · right
      simp [List.idxOf_append, hfront, List.idxOf_cons_ne back (Ne.symm ha)]
      omega
  have h1 := hplace hsource
  have h2 := hplace htarget
  simp only [pointsBack, decide_eq_decide]
  omega

/-! ## Moves of a walk -/

/-- The nodes of a stack, outermost first. -/
def trail : List (Frame α) → List α
  | [] => []
  | f :: stack => trail stack ++ [f.node]

omit [BEq α] in
theorem mem_trail {stack : List (Frame α)} {a : α} :
    a ∈ trail stack ↔ ∃ f ∈ stack, f.node = a := by
  induction stack with
  | nil => simp [trail]
  | cons f stack ih =>
      rw [trail, List.mem_append, ih, List.mem_singleton]
      constructor
      · rintro (⟨g, hg, rfl⟩ | rfl)
        · exact ⟨g, List.mem_cons_of_mem f hg, rfl⟩
        · exact ⟨f, List.mem_cons_self, rfl⟩
      · rintro ⟨g, hg, rfl⟩
        rcases List.mem_cons.mp hg with rfl | hg
        · exact Or.inr rfl
        · exact Or.inl ⟨g, hg, rfl⟩

/-- The nodes on the stack, outermost first. -/
def Walk.path (w : Walk α) : List α := trail w.stack

/-- All nodes met: the path, then the nodes done. -/
def Walk.line (w : Walk α) : List α := w.path ++ w.done

/-- The edges that a frame has not looked at. -/
def Frame.waiting (f : Frame α) : List (α × α) := f.rest.map (f.node, ·)

/-- The edges out of the nodes on the stack that the walk has not looked at. -/
def Walk.waiting (w : Walk α) : List (α × α) := w.stack.flatMap Frame.waiting

theorem Walk.active_iff [LawfulBEq α] (w : Walk α) (a : α) : w.active a = true ↔ a ∈ w.path := by
  simp only [Walk.active, Walk.path, List.any_eq_true, beq_iff_eq, mem_trail]

theorem Walk.fresh_iff [LawfulBEq α] (w : Walk α) (a : α) : w.fresh a = true ↔ a ∉ w.line := by
  have h := w.active_iff a
  simp only [Walk.fresh, Walk.line, Bool.and_eq_true, Bool.not_eq_true', List.mem_append, not_or,
    ← h, Bool.not_eq_true, List.contains_eq_mem, decide_eq_false_iff_not]

/-- The four moves of a walk whose stack is not empty. -/
inductive Move (next : α → List α) : Walk α → Walk α → Prop
  | finish (node : α) (stack : List (Frame α)) (done : List α) (back : List (α × α)) :
      Move next ⟨⟨node, []⟩ :: stack, done, back⟩ ⟨stack, node :: done, back⟩
  | close (node child : α) (rest : List α) (stack : List (Frame α)) (done : List α)
      (back : List (α × α)) (h : child ∈ Walk.path ⟨⟨node, child :: rest⟩ :: stack, done, back⟩) :
      Move next ⟨⟨node, child :: rest⟩ :: stack, done, back⟩
        ⟨⟨node, rest⟩ :: stack, done, back ++ [(node, child)]⟩
  | pass (node child : α) (rest : List α) (stack : List (Frame α)) (done : List α)
      (back : List (α × α)) (h : child ∉ Walk.path ⟨⟨node, child :: rest⟩ :: stack, done, back⟩)
      (hdone : child ∈ done) :
      Move next ⟨⟨node, child :: rest⟩ :: stack, done, back⟩ ⟨⟨node, rest⟩ :: stack, done, back⟩
  | enter (node child : α) (rest : List α) (stack : List (Frame α)) (done : List α)
      (back : List (α × α)) (h : child ∉ Walk.line ⟨⟨node, child :: rest⟩ :: stack, done, back⟩) :
      Move next ⟨⟨node, child :: rest⟩ :: stack, done, back⟩
        ⟨⟨child, next child⟩ :: ⟨node, rest⟩ :: stack, done, back⟩

theorem Walk.step_move [LawfulBEq α] (next : α → List α) {w : Walk α} (h : w.stack ≠ []) :
    Move next w (w.step next) := by
  obtain ⟨stack, done, back⟩ := w
  cases stack with
  | nil => exact absurd rfl h
  | cons frame stack =>
      obtain ⟨node, rest⟩ := frame
      cases rest with
      | nil => exact .finish node stack done back
      | cons child rest =>
          let w : Walk α := ⟨⟨node, child :: rest⟩ :: stack, done, back⟩
          change Move next w (w.step next)
          by_cases hpath : child ∈ w.path
          · have hactive : w.active child = true := (w.active_iff child).mpr hpath
            rw [show w.step next = ⟨⟨node, rest⟩ :: stack, done, back ++ [(node, child)]⟩ by
              simp [Walk.step, w, hactive]]
            exact .close node child rest stack done back hpath
          · have hactive : w.active child = false := by
              rw [← Bool.not_eq_true, w.active_iff]
              exact hpath
            by_cases hdone : child ∈ done
            · rw [show w.step next = ⟨⟨node, rest⟩ :: stack, done, back⟩ by
                simp [Walk.step, w, hactive, hdone]]
              exact .pass node child rest stack done back hpath hdone
            · rw [show w.step next = ⟨⟨child, next child⟩ :: ⟨node, rest⟩ :: stack, done, back⟩ by
                simp [Walk.step, w, hactive, hdone]]
              refine .enter node child rest stack done back ?_
              simpa [Walk.line] using ⟨hpath, hdone⟩

/-! ## The invariant -/

/-- An edge out of the last node of a path points back if and only if it ends on the path. -/
theorem pointsBack_path [LawfulBEq α] {front : List α} {node : α} (h : node ∉ front)
    (done : List α) (child : α) :
    pointsBack (front ++ [node] ++ done) (node, child) = true ↔ child ∈ front ++ [node] := by
  have hnode : (front ++ [node] ++ done).idxOf node = front.length := by
    simp [List.idxOf_append, h]
  simp only [pointsBack, hnode, decide_eq_true_eq]
  constructor
  · intro hle
    by_contra hc
    rw [List.idxOf_append_of_notMem hc] at hle
    simp at hle
    omega
  · intro hc
    have hlt := List.idxOf_lt_length_of_mem hc
    rw [List.idxOf_append_of_mem hc]
    simp at hlt
    omega

omit [BEq α] in
theorem node_notMem_trail {node : α} {rest done : List α} {stack : List (Frame α)}
    {back : List (α × α)} (h : (Walk.line ⟨⟨node, rest⟩ :: stack, done, back⟩).Nodup) :
    node ∉ trail stack := by
  intro hm
  have hpath : (trail stack ++ [node]).Nodup := (List.nodup_append.mp h).1
  exact (List.nodup_append.mp hpath).2.2 node hm node (by simp) rfl

/-- What holds of a walk among `ids` that has looked at the edges `seen`. -/
structure Walk.Sound (ids : List α) (edges seen : List (α × α)) (w : Walk α) : Prop where
  nodup : w.line.Nodup
  within : ∀ a ∈ w.line, a ∈ ids
  split : seen ++ w.waiting ~ w.line.flatMap (outgoing edges)
  met : ∀ e ∈ seen, e.2 ∈ w.line
  back : w.back ~ seen.filter (pointsBack w.line)

section Invariant

variable [LawfulBEq α] {ids : List α} {edges seen : List (α × α)} {w : Walk α}

theorem Walk.Sound.edge_of_mem (h : w.Sound ids edges seen) {e : α × α}
    (he : e ∈ seen ++ w.waiting) : e ∈ edges ∧ e.1 ∈ w.line := by
  obtain ⟨a, ha, hout⟩ := List.mem_flatMap.mp (h.split.mem_iff.mp he)
  obtain ⟨hedge, rfl⟩ := mem_outgoing.mp hout
  exact ⟨hedge, ha⟩

/-- A walk has looked at no more edges than there are and met no more nodes. -/
theorem Walk.Sound.bound (h : w.Sound ids edges seen) :
    seen.length + w.line.length ≤ edges.length + ids.length := by
  have hline : w.line.length ≤ ids.length := (h.nodup.subperm h.within).length_le
  have hall : (seen ++ w.waiting).length = (edges.filter fun e => w.line.contains e.1).length :=
    (h.split.trans (flatMap_outgoing_perm edges h.nodup)).length_eq
  have hle := List.length_filter_le (fun e : α × α => w.line.contains e.1) edges
  rw [List.length_append] at hall
  omega

omit [LawfulBEq α] in
/-- A walk that looks at one more edge between nodes it has met. -/
theorem Walk.Sound.look {w' : Walk α} {e : α × α} (h : w.Sound ids edges seen)
    (hline : w'.line = w.line) (hwaiting : w.waiting = e :: w'.waiting) (hmet : e.2 ∈ w.line)
    (hback : w'.back = w.back ++ [e].filter (pointsBack w.line)) :
    w'.Sound ids edges (seen ++ [e]) := by
  refine ⟨hline ▸ h.nodup, hline ▸ h.within, ?_, ?_, ?_⟩
  · rw [hline, List.append_assoc, List.singleton_append, ← hwaiting]
    exact h.split
  · rw [hline, List.forall_mem_append, List.forall_mem_singleton]
    exact ⟨h.met, hmet⟩
  · rw [hline, hback, List.filter_append]
    exact h.back.append_right _

/-- A walk that meets a new node, which comes into the line without a change of what stands there.
The edge that leads to it, if there is one, points forward. -/
theorem Walk.Sound.meet {w' : Walk α} {front later : List α} {c : α} {looked : List (α × α)}
    (h : w.Sound ids edges seen) (hc : c ∈ ids) (hfresh : c ∉ w.line)
    (hold : w.line = front ++ later) (hline : w'.line = front ++ c :: later)
    (hwaiting : looked ++ w'.waiting ~ outgoing edges c ++ w.waiting)
    (hlooked : ∀ e ∈ looked, e.2 = c ∧ ¬pointsBack w'.line e = true) (hback : w'.back = w.back) :
    w'.Sound ids edges (seen ++ looked) := by
  have hmiddle : w'.line ~ c :: w.line := by
    rw [hline, hold]
    exact List.perm_middle
  have hkeep : ∀ {a}, a ∈ w'.line ↔ a = c ∨ a ∈ w.line := by
    intro a
    rw [hmiddle.mem_iff, List.mem_cons]
  have hpoints : ∀ e ∈ seen, pointsBack w'.line e = pointsBack w.line e := by
    intro e he
    have hsource := (h.edge_of_mem (List.mem_append_left _ he)).2
    rw [hline, hold]
    exact pointsBack_insert front later (fun hsame => hfresh (hsame ▸ hsource))
      (fun hsame => hfresh (hsame ▸ h.met e he))
  refine ⟨?_, ?_, ?_, ?_, ?_⟩
  · exact hmiddle.nodup_iff.mpr (List.nodup_cons.mpr ⟨hfresh, h.nodup⟩)
  · intro a ha
    rcases hkeep.mp ha with rfl | ha
    · exact hc
    · exact h.within a ha
  · calc
      seen ++ looked ++ w'.waiting = seen ++ (looked ++ w'.waiting) := List.append_assoc _ _ _
      _ ~ seen ++ (outgoing edges c ++ w.waiting) := hwaiting.append_left seen
      _ ~ outgoing edges c ++ (seen ++ w.waiting) := List.perm_append_comm_assoc _ _ _
      _ ~ outgoing edges c ++ w.line.flatMap (outgoing edges) := h.split.append_left _
      _ ~ w'.line.flatMap (outgoing edges) := (hmiddle.flatMap_right _).symm
  · intro e he
    rcases List.mem_append.mp he with he | he
    · exact hkeep.mpr (.inr (h.met e he))
    · exact hkeep.mpr (.inl (hlooked e he).1)
  · have hnone : looked.filter (pointsBack w'.line) = [] :=
      List.filter_eq_nil_iff.mpr fun e he => (hlooked e he).2
    rw [hback, List.filter_append, hnone, List.append_nil, List.filter_congr hpoints]
    exact h.back

/-- Every move keeps the invariant. It finishes a node or looks at one more edge, and no node that
was met is lost. -/
theorem Walk.Sound.move {w' : Walk α} (hin : ∀ e ∈ edges, e.2 ∈ ids)
    (h : w.Sound ids edges seen) (hm : Move (children edges) w w') :
    ∃ looked, w'.Sound ids edges (seen ++ looked) ∧
      looked.length + w'.done.length = w.done.length + 1 ∧ ∀ a ∈ w.line, a ∈ w'.line := by
  cases hm with
  | finish node stack done back =>
      have hline : Walk.line ⟨⟨node, []⟩ :: stack, done, back⟩ =
          Walk.line ⟨stack, node :: done, back⟩ := by
        simp [Walk.line, Walk.path, trail]
      refine ⟨[], ⟨hline ▸ h.nodup, hline ▸ h.within, ?_, ?_, ?_⟩, by simp, ?_⟩
      · rw [← hline]
        simpa [Walk.waiting, Frame.waiting] using h.split
      · rw [← hline, List.append_nil]
        exact h.met
      · rw [← hline, List.append_nil]
        exact h.back
      · intro a ha
        exact hline ▸ ha
  | close node child rest stack done back hpath =>
      have hback := (pointsBack_path (node_notMem_trail h.nodup) done child).mpr hpath
      refine ⟨[(node, child)], h.look rfl rfl (List.mem_append_left done hpath) ?_,
        by simp; omega, fun a ha => ha⟩
      exact congrArg (back ++ ·) (List.filter_cons_of_pos (l := []) hback).symm
  | pass node child rest stack done back hpath hdone =>
      have hback := mt (pointsBack_path (node_notMem_trail h.nodup) done child).mp hpath
      refine ⟨[(node, child)], h.look rfl rfl (List.mem_append_right _ hdone) ?_,
        by simp; omega, fun a ha => ha⟩
      have hnone : [(node, child)].filter (pointsBack (trail stack ++ [node] ++ done)) = [] :=
        List.filter_cons_of_neg hback
      exact (List.append_nil back).symm.trans (congrArg (back ++ ·) hnone.symm)
  | enter node child rest stack done back hfresh =>
      let w : Walk α := ⟨⟨node, child :: rest⟩ :: stack, done, back⟩
      let w' : Walk α := ⟨⟨child, children edges child⟩ :: ⟨node, rest⟩ :: stack, done, back⟩
      have hline : w'.line = w.path ++ child :: done := by simp [w', w, Walk.line, Walk.path, trail]
      have hedge : (node, child) ∈ edges :=
        (h.edge_of_mem (List.mem_append_right seen (by simp [Walk.waiting, Frame.waiting]))).1
      have hforward : ¬pointsBack w'.line (node, child) = true := by
        rw [hline]
        refine mt (pointsBack_path (node_notMem_trail h.nodup) (child :: done) child).mp ?_
        exact fun hc => hfresh (List.mem_append_left done hc)
      have hwaiting : [(node, child)] ++ w'.waiting ~ outgoing edges child ++ w.waiting :=
        List.perm_append_comm_assoc [(node, child)] (outgoing edges child) _
      have hsound : w'.Sound ids edges (seen ++ [(node, child)]) := by
        refine h.meet (hin _ hedge) hfresh rfl hline hwaiting ?_ rfl
        rw [List.forall_mem_singleton]
        exact ⟨rfl, hforward⟩
      refine ⟨[(node, child)], hsound, by simp; omega, ?_⟩
      intro a ha
      change a ∈ w'.line
      rw [hline]
      rcases List.mem_append.mp ha with ha | ha
      · exact List.mem_append_left _ ha
      · exact List.mem_append_right _ (List.mem_cons_of_mem _ ha)

/-! ## Runs and visits -/

/-- Steps enough for all nodes and edges empty the stack. -/
theorem Walk.Sound.run (hin : ∀ e ∈ edges, e.2 ∈ ids) (h : w.Sound ids edges seen) (fuel : Nat)
    (hfuel : ids.length + edges.length ≤ fuel + (seen.length + w.done.length)) :
    ∃ looked, (run (children edges) fuel w).Sound ids edges (seen ++ looked) ∧
      (run (children edges) fuel w).stack = [] ∧
      ∀ a ∈ w.line, a ∈ (run (children edges) fuel w).line := by
  induction fuel generalizing w seen with
  | zero =>
      refine ⟨[], by simpa [run] using h, ?_, fun a ha => ha⟩
      have hbound := h.bound
      cases hstack : w.stack with
      | nil => simpa [run] using hstack
      | cons f stack =>
          have hpath : 0 < w.path.length := by simp [Walk.path, hstack, trail]
          simp only [Walk.line, List.length_append] at hbound
          omega
  | succ fuel ih =>
      by_cases hstack : w.stack = []
      · refine ⟨[], by simpa [run, hstack] using h, by simp [run, hstack], ?_⟩
        intro a ha
        simpa [run, hstack] using ha
      · have hempty : w.stack.isEmpty = false := by simpa using hstack
        obtain ⟨looked, hsound, hcount, hkeep⟩ := h.move hin (w.step_move _ hstack)
        obtain ⟨later, hrun, hdone, hlater⟩ := ih hsound (by
          rw [List.length_append]
          omega)
        simp only [run, hempty, Bool.false_eq_true, if_false]
        exact ⟨looked ++ later, by simpa using hrun, hdone, fun a ha => hlater a (hkeep a ha)⟩

/-- Between visits the stack is empty. -/
structure Walk.Rested (ids : List α) (edges : List (α × α)) (w : Walk α) : Prop where
  sound : ∃ seen, w.Sound ids edges seen
  stack : w.stack = []

omit [LawfulBEq α] in
theorem Walk.Rested.line (h : w.Rested ids edges) : w.line = w.done := by
  simp [Walk.line, Walk.path, h.stack, trail]

/-- A walk that starts from a node not met. -/
theorem Walk.Rested.start (h : w.Rested ids edges) {root : α} (hroot : root ∈ ids)
    (hfresh : root ∉ w.done) :
    ∃ seen, Walk.Sound ids edges seen { w with stack := [⟨root, children edges root⟩] } := by
  obtain ⟨seen, hsound⟩ := h.sound
  let started : Walk α := { w with stack := [⟨root, children edges root⟩] }
  have hold : w.line = [] ++ w.done := h.line
  have hline : started.line = [] ++ root :: w.done := rfl
  have hwaiting : [] ++ started.waiting ~ outgoing edges root ++ w.waiting := by
    simp [started, Walk.waiting, h.stack, Frame.waiting, outgoing]
  have hstart := hsound.meet hroot (h.line ▸ hfresh) hold hline hwaiting (by simp) rfl
  exact ⟨seen, List.append_nil seen ▸ hstart⟩

/-- A visit finishes its root and keeps the nodes done. -/
theorem Walk.Rested.visit (hin : ∀ e ∈ edges, e.2 ∈ ids) (h : w.Rested ids edges) {root : α}
    (hroot : root ∈ ids) :
    (w.visit (children edges) (ids.length + edges.length) root).Rested ids edges ∧
      root ∈ (w.visit (children edges) (ids.length + edges.length) root).done ∧
      ∀ a ∈ w.done, a ∈ (w.visit (children edges) (ids.length + edges.length) root).done := by
  by_cases hmet : root ∈ w.done
  · have hfresh : w.fresh root = false := by
      rw [← Bool.not_eq_true, w.fresh_iff, h.line]
      exact not_not.mpr hmet
    simp only [Walk.visit, hfresh, Bool.false_eq_true, if_false]
    exact ⟨h, hmet, fun a ha => ha⟩
  · have hfresh : w.fresh root = true := by
      rw [w.fresh_iff, h.line]
      exact hmet
    obtain ⟨seen, hstart⟩ := h.start hroot hmet
    obtain ⟨looked, hsound, hstack, hkeep⟩ :=
      hstart.run hin (ids.length + edges.length) (Nat.le_add_right _ _)
    simp only [Walk.visit, hfresh, if_true]
    have hrested : Walk.Rested ids edges _ := ⟨⟨_, hsound⟩, hstack⟩
    refine ⟨hrested, ?_, ?_⟩
    · rw [← hrested.line]
      exact hkeep root List.mem_cons_self
    · intro a ha
      rw [← hrested.line]
      exact hkeep a (List.mem_cons_of_mem root ha)

theorem Walk.Rested.visits (hin : ∀ e ∈ edges, e.2 ∈ ids) (h : w.Rested ids edges)
    (starts : List α) (hstarts : ∀ a ∈ starts, a ∈ ids) :
    (starts.foldl (Walk.visit (children edges) (ids.length + edges.length)) w).Rested ids edges ∧
      ∀ a, a ∈ starts ∨ a ∈ w.done →
        a ∈ (starts.foldl (Walk.visit (children edges) (ids.length + edges.length)) w).done := by
  induction starts generalizing w with
  | nil => exact ⟨h, fun a ha => ha.resolve_left (List.not_mem_nil)⟩
  | cons root starts ih =>
      obtain ⟨hvisit, hroot, hkeep⟩ := h.visit hin (hstarts root List.mem_cons_self)
      obtain ⟨hrested, hdone⟩ := ih hvisit fun a ha => hstarts a (List.mem_cons_of_mem root ha)
      refine ⟨hrested, ?_⟩
      rintro a (ha | ha)
      · rcases List.mem_cons.mp ha with rfl | ha
        · exact hdone a (Or.inr hroot)
        · exact hdone a (Or.inl ha)
      · exact hdone a (Or.inr (hkeep a ha))

omit [LawfulBEq α] in
theorem Walk.rested_start : (⟨[], [], []⟩ : Walk α).Rested ids edges :=
  ⟨⟨[], by simp [Walk.line, Walk.path, trail], by simp [Walk.line, Walk.path, trail],
    by simp [Walk.waiting, Walk.line, Walk.path, trail], by simp, by simp⟩, rfl⟩

end Invariant

end BlockNet.Schedule
