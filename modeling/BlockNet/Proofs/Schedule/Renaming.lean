import BlockNet.Proofs.Schedule.Order
import Mathlib.Data.Set.Function
import Mathlib.Logic.Relation

/-! # Renamed and tidied graphs

A walk tells nodes apart by `==` alone. A renaming that `==` does not notice takes every step of a
walk to a step of the renamed walk, and so it takes a schedule to the schedule of the renamed graph.
Nodes that come again, edges that leave the nodes, and where and how often sources stand are nothing
that a walk ever sees. -/

namespace BlockNet

variable {α β : Type}

open List

/-- A renaming that `==` does not notice. -/
def Faithful [BEq α] [BEq β] (f : α → β) : Prop := ∀ a b, (f a == f b) = (a == b)

theorem Faithful.contains [BEq α] [BEq β] {f : α → β} (hf : Faithful f) (xs : List α) (a : α) :
    (xs.map f).contains (f a) = xs.contains a := by
  induction xs with
  | nil => rfl
  | cons b xs ih => rw [map_cons, contains_cons, contains_cons, hf, ih]

theorem distinct_map [BEq α] [BEq β] {f : α → β} (hf : Faithful f) (xs : List α) :
    distinct (xs.map f) = (distinct xs).map f := by
  induction xs with
  | nil => rfl
  | cons a xs ih =>
      have hne : (fun b => f b != f a) = fun b => b != a := by
        funext b
        rw [bne, bne, hf]
      rw [map_cons, distinct, distinct, map_cons, ih, filter_map]
      exact congrArg (fun p => f a :: ((distinct xs).filter p).map f) hne

/-- The schedule under other names. -/
def Schedule.map (f : α → β) (s : Schedule α) : Schedule β :=
  ⟨s.order.map f, s.backEdges.map (Prod.map f f)⟩

namespace Schedule

@[simp]
theorem cycleDetected_map (f : α → β) (s : Schedule α) :
    (s.map f).cycleDetected = s.cycleDetected := by
  simp [cycleDetected, Schedule.map]

/-! ## Walks under other names -/

/-- A frame under other names. -/
def Frame.map (f : α → β) (frame : Frame α) : Frame β := ⟨f frame.node, frame.rest.map f⟩

/-- A walk under other names. -/
def Walk.map (f : α → β) (w : Walk α) : Walk β :=
  ⟨w.stack.map (Frame.map f), w.done.map f, w.back.map (Prod.map f f)⟩

section Faithful

variable [BEq α] [BEq β] {f : α → β} {next : α → List α} {next' : β → List β}

theorem Walk.active_map (hf : Faithful f) (w : Walk α) (a : α) :
    (w.map f).active (f a) = w.active a := by
  simp only [Walk.active, Walk.map, any_map]
  exact congrArg w.stack.any (funext fun frame => hf frame.node a)

theorem Walk.fresh_map (hf : Faithful f) (w : Walk α) (a : α) :
    (w.map f).fresh (f a) = w.fresh a := by
  rw [Walk.fresh, Walk.fresh, Walk.active_map hf]
  exact congrArg (!w.active a && !·) (hf.contains w.done a)

/-- A walk under other names makes the same step. -/
theorem Walk.step_map (hf : Faithful f) (hnext : ∀ a, next' (f a) = (next a).map f) (w : Walk α) :
    (w.map f).step next' = (w.step next).map f := by
  obtain ⟨stack, done, back⟩ := w
  cases stack with
  | nil => rfl
  | cons frame stack =>
      obtain ⟨node, rest⟩ := frame
      cases rest with
      | nil => rfl
      | cons child rest =>
          let w : Walk α := ⟨⟨node, child :: rest⟩ :: stack, done, back⟩
          have hactive : (w.map f).active (f child) = w.active child := Walk.active_map hf w child
          have hdone : (w.map f).done.contains (f child) = w.done.contains child :=
            hf.contains w.done child
          change (if (w.map f).active (f child) then _ else if (w.map f).done.contains (f child)
            then _ else _) = Walk.map f (if w.active child then _ else
              if w.done.contains child then _ else _)
          rw [hactive, hdone]
          split
          · simp [Walk.map, Frame.map]
          · split
            · rfl
            · simp [Walk.map, Frame.map, hnext]

theorem Walk.run_map (hf : Faithful f) (hnext : ∀ a, next' (f a) = (next a).map f) (fuel : Nat)
    (w : Walk α) : run next' fuel (w.map f) = (run next fuel w).map f := by
  induction fuel generalizing w with
  | zero => rfl
  | succ fuel ih =>
      have hempty : (w.map f).stack.isEmpty = w.stack.isEmpty := by simp [Walk.map]
      rw [run, run, hempty, Walk.step_map hf hnext, ih]
      split <;> rfl

theorem Walk.visit_map (hf : Faithful f) (hnext : ∀ a, next' (f a) = (next a).map f) (fuel : Nat)
    (w : Walk α) (root : α) :
    (w.map f).visit next' fuel (f root) = (w.visit next fuel root).map f := by
  rw [visit, visit, Walk.fresh_map hf]
  split
  · rw [← Walk.run_map hf hnext]
    simp [Walk.map, Frame.map, hnext]
  · rfl

theorem Walk.visits_map (hf : Faithful f) (hnext : ∀ a, next' (f a) = (next a).map f) (fuel : Nat)
    (w : Walk α) (starts : List α) :
    (starts.map f).foldl (visit next' fuel) (w.map f) =
      (starts.foldl (visit next fuel) w).map f := by
  induction starts generalizing w with
  | nil => rfl
  | cons root starts ih => rw [map_cons, foldl_cons, foldl_cons, Walk.visit_map hf hnext, ih]

/-! ## Graphs under other names -/

theorem inside_map (hf : Faithful f) (ids : List α) (edges : List (α × α)) :
    inside (ids.map f) (edges.map (Prod.map f f)) = (inside ids edges).map (Prod.map f f) := by
  rw [inside, inside, filter_map]
  congr 1
  refine filter_congr fun e _ => ?_
  exact congrArg₂ and (hf.contains ids e.1) (hf.contains ids e.2)

theorem children_map (hf : Faithful f) (edges : List (α × α)) (a : α) :
    children (edges.map (Prod.map f f)) (f a) = (children edges a).map f := by
  have hsame : ((fun e : β × β => e.1 == f a) ∘ Prod.map f f) = fun e : α × α => e.1 == a :=
    funext fun e => hf e.1 a
  rw [children, children, filter_map, hsame, map_reverse, map_map, map_map]
  rfl

theorem roots_map (hf : Faithful f) (ids : List α) (edges : List (α × α)) (sources : List α) :
    roots (ids.map f) (edges.map (Prod.map f f)) (sources.map f) =
      (roots ids edges sources).map f := by
  rw [roots, roots, filter_map]
  congr 1
  refine filter_congr fun a _ => ?_
  have hentered : (edges.map (Prod.map f f)).any (·.2 == f a) = edges.any (·.2 == a) := by
    rw [any_map]
    exact congrArg edges.any (funext fun e => hf e.2 a)
  exact congrArg₂ (!· || ·) hentered (hf.contains sources a)

/-- A renaming that `==` does not notice renames the schedule. -/
theorem ofGraph_map (hf : Faithful f) (nodes : List α) (edges : List (α × α)) (sources : List α) :
    ofGraph (nodes.map f) (edges.map (Prod.map f f)) (sources.map f) =
      (ofGraph nodes edges sources).map f := by
  have hstart : (⟨[], [], []⟩ : Walk β) = Walk.map f ⟨[], [], []⟩ := rfl
  simp only [ofGraph, distinct_map hf, inside_map hf, roots_map hf, length_map, ← map_reverse,
    ← map_append]
  rw [hstart, Walk.visits_map hf (children_map hf _)]
  rfl

end Faithful

/-! ## Requests -/

/-- What a schedule is asked for. -/
structure Request (α : Type) where
  nodes : List α
  edges : List (α × α)
  sources : List α

namespace Request

/-- The request under other names. -/
def map (f : α → β) (r : Request α) : Request β :=
  ⟨r.nodes.map f, r.edges.map (Prod.map f f), r.sources.map f⟩

/-- Does a name stand anywhere in the request? -/
def Mentions (r : Request α) (a : α) : Prop :=
  a ∈ r.nodes ∨ (∃ e ∈ r.edges, a = e.1 ∨ a = e.2) ∨ a ∈ r.sources

/-- The request over no names but its own. -/
def own (r : Request α) : Request {a // r.Mentions a} where
  nodes := r.nodes.attach.map fun a => ⟨a.1, .inl a.2⟩
  edges := r.edges.attach.map fun e =>
    (⟨e.1.1, .inr (.inl ⟨e.1, e.2, .inl rfl⟩)⟩, ⟨e.1.2, .inr (.inl ⟨e.1, e.2, .inr rfl⟩)⟩)
  sources := r.sources.attach.map fun a => ⟨a.1, .inr (.inr a.2)⟩

theorem own_map {γ : Type} (f : α → γ) (r : Request α) : r.own.map (f ∘ Subtype.val) = r.map f := by
  obtain ⟨nodes, edges, sources⟩ := r
  simp only [own, map, map_map, mk.injEq]
  exact ⟨attach_map_val, attach_map_val (f := Prod.map f f), attach_map_val⟩

theorem map_id (r : Request α) : r.map id = r := by simp [map]

variable [BEq α]

/-- The schedule that a request gets. -/
def schedule (r : Request α) : Schedule α := ofGraph r.nodes r.edges r.sources

theorem schedule_map [BEq β] {f : α → β} (hf : Faithful f) (r : Request α) :
    (r.map f).schedule = r.schedule.map f :=
  ofGraph_map hf r.nodes r.edges r.sources

/-- A renaming that keeps the names of a request apart renames its schedule. -/
theorem schedule_map_of_injOn [LawfulBEq α] [BEq β] [LawfulBEq β] {f : α → β} {r : Request α}
    (hf : Set.InjOn f {a | r.Mentions a}) : (r.map f).schedule = r.schedule.map f := by
  let same : BEq {a // r.Mentions a} := ⟨fun a b => a.1 == b.1⟩
  have hval : Faithful (Subtype.val : {a // r.Mentions a} → α) := fun _ _ => rfl
  have hcomp : Faithful (f ∘ Subtype.val : {a // r.Mentions a} → β) := by
    intro a b
    change (f a.1 == f b.1) = (a.1 == b.1)
    rw [Bool.eq_iff_iff, beq_iff_eq, beq_iff_eq]
    exact hf.eq_iff a.2 b.2
  have hown : r.own.schedule.map Subtype.val = r.schedule := by
    rw [← schedule_map hval]
    exact congrArg schedule ((own_map id r).trans r.map_id)
  calc (r.map f).schedule = (r.own.map (f ∘ Subtype.val)).schedule := by rw [own_map]
    _ = r.own.schedule.map (f ∘ Subtype.val) := schedule_map hcomp r.own
    _ = (r.own.schedule.map Subtype.val).map f := by simp [Schedule.map]
    _ = r.schedule.map f := by rw [hown]

/-! ## Tidying -/

/-- Sources only matter by which of the nodes are among them. -/
theorem roots_congr {ids : List α} {edges : List (α × α)} {sources sources' : List α}
    (h : ∀ a ∈ ids, sources.contains a = sources'.contains a) :
    roots ids edges sources = roots ids edges sources' := by
  refine filter_congr fun a ha => ?_
  rw [h a ha]

/-- What no walk sees may go: a node that has come before, an edge with an end outside the nodes, a
source that is no node, the order of the sources, and a source that comes again. -/
inductive Tidies : Request α → Request α → Prop
  | node {a : α} {front : List α} (h : a ∈ front) (back : List α) (edges : List (α × α))
      (sources : List α) :
      Tidies ⟨front ++ a :: back, edges, sources⟩ ⟨front ++ back, edges, sources⟩
  | edge {nodes : List α} {e : α × α} (h : e.1 ∉ nodes ∨ e.2 ∉ nodes) (front back : List (α × α))
      (sources : List α) :
      Tidies ⟨nodes, front ++ e :: back, sources⟩ ⟨nodes, front ++ back, sources⟩
  | stray {nodes : List α} {a : α} (h : a ∉ nodes) (edges : List (α × α)) (front back : List α) :
      Tidies ⟨nodes, edges, front ++ a :: back⟩ ⟨nodes, edges, front ++ back⟩
  | order {sources sources' : List α} (h : sources ~ sources') (nodes : List α)
      (edges : List (α × α)) : Tidies ⟨nodes, edges, sources⟩ ⟨nodes, edges, sources'⟩
  | again {a : α} {front back : List α} (h : a ∈ front ++ back) (nodes : List α)
      (edges : List (α × α)) :
      Tidies ⟨nodes, edges, front ++ a :: back⟩ ⟨nodes, edges, front ++ back⟩

variable [LawfulBEq α]

/-- A walk sees the nodes at their first places, the edges between them and which of them are
sources. -/
theorem schedule_congr {r r' : Request α} (hnodes : distinct r.nodes = distinct r'.nodes)
    (hedges : inside r.nodes r.edges = inside r.nodes r'.edges)
    (hsources : ∀ a ∈ r.nodes, a ∈ r.sources ↔ a ∈ r'.sources) : r.schedule = r'.schedule := by
  have hinside : inside (distinct r'.nodes) r.edges = inside (distinct r'.nodes) r'.edges := by
    rw [← hnodes, inside_distinct, inside_distinct, hedges]
  have hroots : roots (distinct r'.nodes) (inside (distinct r'.nodes) r'.edges) r.sources =
      roots (distinct r'.nodes) (inside (distinct r'.nodes) r'.edges) r'.sources := by
    refine roots_congr fun a ha => ?_
    rw [Bool.eq_iff_iff, contains_iff_mem, contains_iff_mem]
    exact hsources a (mem_distinct.mp (hnodes ▸ ha))
  simp only [schedule, ofGraph, hnodes, hinside, hroots]

theorem Tidies.schedule_eq {r r' : Request α} (h : Tidies r r') : r'.schedule = r.schedule := by
  symm
  cases h with
  | node h back edges sources =>
      exact schedule_congr (distinct_append_cons_of_mem h back) rfl fun _ _ => Iff.rfl
  | edge h front back sources =>
      refine schedule_congr rfl ?_ fun _ _ => Iff.rfl
      rw [inside, inside, filter_append, filter_append, filter_cons_of_neg]
      simpa using not_and_or.mpr h
  | stray h edges front back =>
      refine schedule_congr rfl rfl fun b hb => ?_
      have hne : b ≠ _ := ne_of_mem_of_not_mem hb h
      simp [hne]
  | order h nodes edges => exact schedule_congr rfl rfl fun _ _ => h.mem_iff
  | again h nodes edges =>
      refine schedule_congr rfl rfl fun b _ => ?_
      rw [perm_middle.mem_iff, mem_cons]
      exact ⟨fun hb => hb.elim (· ▸ h) id, .inr⟩

/-- Renaming a request renames its schedule, and tidying it changes nothing. -/
theorem schedule_natural (r : Request α) :
    (∀ {β : Type} [BEq β] [LawfulBEq β] (f : α → β), Set.InjOn f {a | r.Mentions a} →
      (r.map f).schedule = r.schedule.map f ∧
        (r.map f).schedule.cycleDetected = r.schedule.cycleDetected) ∧
    ∀ r' : Request α, Relation.EqvGen Tidies r r' → r'.schedule = r.schedule := by
  constructor
  · intro β _ _ f hf
    have h := schedule_map_of_injOn hf
    exact ⟨h, by rw [h, cycleDetected_map]⟩
  · intro r' h
    induction h with
    | rel r r' h => exact h.schedule_eq
    | refl r => rfl
    | symm r r' _ ih => exact ih.symm
    | trans r s t _ _ ih ih' => exact ih'.trans ih

/-- A request with a node that comes again, a loop, an edge and a source that are of no use, renamed by
the lengths of its names and tidied. -/
theorem schedule_natural_lengths :
    let r : Request String := ⟨["a", "bb", "a"], [("a", "bb"), ("bb", "bb"), ("ccc", "a")], ["dddd"]⟩
    LawfulBEq String ∧
      Set.InjOn String.length {a | r.Mentions a} ∧
      (r.map String.length).schedule = ⟨[1, 2], [(2, 2)]⟩ ∧
      (r.map String.length).schedule.cycleDetected = true ∧
      (⟨["a", "bb"], [("a", "bb"), ("bb", "bb")], []⟩ : Request String).schedule =
        ⟨["a", "bb"], [("bb", "bb")]⟩ := by
  intro r
  have hr : r.schedule = ⟨["a", "bb"], [("bb", "bb")]⟩ := by decide
  have hmentions : ∀ a, r.Mentions a → a ∈ ["a", "bb", "ccc", "dddd"] := by
    intro a ha
    simp [Mentions, r] at ha
    simp
    tauto
  have hinj : Set.InjOn String.length {a | r.Mentions a} := by
    intro a ha b hb h
    have hapart : ∀ a ∈ ["a", "bb", "ccc", "dddd"], ∀ b ∈ ["a", "bb", "ccc", "dddd"],
        a.length = b.length → a = b := by decide
    exact hapart a (hmentions a ha) b (hmentions b hb) h
  obtain ⟨hrenamed, htidied⟩ := schedule_natural r
  obtain ⟨hmap, hcycle⟩ := hrenamed String.length hinj
  refine ⟨inferInstance, hinj, ?_, ?_, ?_⟩
  · rw [hmap, hr]
    rfl
  · rw [hcycle, hr]
    rfl
  · rw [← hr]
    refine htidied _ ?_
    refine .trans _ ⟨["a", "bb"], r.edges, r.sources⟩ _ (.rel _ _ ?_) ?_
    · exact .node (show "a" ∈ ["a", "bb"] by decide) [] r.edges r.sources
    · refine .trans _ ⟨["a", "bb"], [("a", "bb"), ("bb", "bb")], r.sources⟩ _ (.rel _ _ ?_)
        (.rel _ _ ?_)
      · exact .edge (by decide) [("a", "bb"), ("bb", "bb")] [] r.sources
      · exact .stray (by decide) [("a", "bb"), ("bb", "bb")] [] []

end Request

end Schedule

end BlockNet
