import BlockNet.Proofs.Compilation.Outside
import BlockNet.Proofs.Compilation.Parallel
import Mathlib.Data.List.Induction
import Mathlib.Data.List.Nodup

/-! # Compiling in another order

A node has its turn after the nodes that feed it, so what its turn comes to depends on its ancestors
only, and it is the same in every such order. -/

namespace BlockNet.Compilation

open List

/-! ## Noted feeds -/

theorem keys_subset_putFeeds (external noted : List Feed) :
    external.map (·.1) ⊆ (putFeeds external noted).map (·.1) ∧
      noted.map (·.1) ⊆ (putFeeds external noted).map (·.1) := by
  induction noted generalizing external with
  | nil => exact ⟨Subset.refl _, nil_subset _⟩
  | cons e noted ih =>
      obtain ⟨hkept, hnoted⟩ := ih (putFeed external e.1 e.2)
      obtain ⟨hkey, hexternal⟩ := cons_subset.mp (keys_putFeed external e.1 e.2)
      exact ⟨Subset.trans hexternal hkept, cons_subset.mpr ⟨hkept hkey, hnoted⟩⟩

theorem mem_putFeeds {external noted : List Feed} {e : Feed} (h : e ∈ putFeeds external noted) :
    e ∈ external ∨ e ∈ noted := by
  induction noted generalizing external with
  | nil => exact .inl h
  | cons f noted ih =>
      rcases ih h with h | h
      · rcases mem_putFeed h with h | rfl
        · exact .inl h
        · exact .inr mem_cons_self
      · exact .inr (mem_cons_of_mem f h)

theorem nodup_putFeed {feeds : List Feed} (h : (feeds.map (·.1)).Nodup) (key : String)
    (shape : TensorShape) : ((putFeed feeds key shape).map (·.1)).Nodup := by
  induction feeds with
  | nil => simp [putFeed]
  | cons f feeds ih =>
      obtain ⟨hf, hfeeds⟩ := nodup_cons.mp h
      rw [putFeed]
      split
      · rename_i hkey
        rw [map_cons, ← eq_of_beq hkey]
        exact h
      · rename_i hkey
        refine nodup_cons.mpr ⟨fun hmem => ?_, ih hfeeds⟩
        obtain ⟨e, he, hsame⟩ := mem_map.mp hmem
        rcases mem_putFeed he with he | rfl
        · exact hf (hsame ▸ mem_map_of_mem he)
        · exact hkey (beq_iff_eq.mpr hsame.symm)

theorem nodup_putFeeds {external : List Feed} (h : (external.map (·.1)).Nodup)
    (noted : List Feed) : ((putFeeds external noted).map (·.1)).Nodup := by
  induction noted generalizing external with
  | nil => exact h
  | cons e noted ih => exact ih (nodup_putFeed h e.1 e.2)

/-- Feeds that have one shape under each key may be stored in any order. -/
theorem putFeeds_perm {noted noted' : List Feed} (h : noted ~ noted')
    (hkey : ∀ e ∈ noted, ∀ f ∈ noted, e.1 = f.1 → e = f) :
    putFeeds [] noted ~ putFeeds [] noted' := by
  have hmem : ∀ {feeds : List Feed}, (∀ e, e ∈ feeds ↔ e ∈ noted) →
      ∀ e, e ∈ putFeeds [] feeds ↔ e ∈ noted := by
    intro feeds hfeeds e
    have hback : ∀ f ∈ putFeeds [] feeds, f ∈ noted := by
      intro f hf
      exact (hfeeds f).mp ((mem_putFeeds hf).resolve_left not_mem_nil)
    refine ⟨hback e, fun he => ?_⟩
    obtain ⟨f, hf, hsame⟩ := mem_map.mp
      ((keys_subset_putFeeds [] feeds).2 (mem_map_of_mem ((hfeeds e).mpr he)))
    exact hkey f (hback f hf) e he hsame ▸ hf
  have hnodup : ∀ feeds : List Feed, (putFeeds [] feeds).Nodup := fun feeds =>
    Nodup.of_map (·.1) (nodup_putFeeds (by simp) feeds)
  refine (perm_ext_iff_of_nodup (hnodup _) (hnodup _)).mpr fun e => ?_
  rw [hmem (fun e => Iff.rfl), hmem (fun e => h.symm.mem_iff)]

/-! ## All turns -/

/-- What is settled after turns of nodes. -/
def Ledger.enterAll (l : Ledger) (turn : String → Turn) (ids : List String) : Ledger where
  forms := l.forms ++ ids.filterMap fun id => (turn id).form
  skipped := l.skipped ++ ids.filter fun id => (turn id).form.isNone
  external := putFeeds l.external (ids.flatMap fun id => (turn id).noted)

theorem Ledger.enterAll_nil (l : Ledger) (turn : String → Turn) : l.enterAll turn [] = l := by
  simp [enterAll, putFeeds]

theorem Ledger.enterAll_concat (l : Ledger) (turn : String → Turn) (ids : List String)
    (id : String) : l.enterAll turn (ids ++ [id]) = (l.enterAll turn ids).enter id (turn id) := by
  cases hform : (turn id).form <;>
    simp [enterAll, enter, hform, putFeeds, foldl_append, filterMap_append, filter_append,
      flatMap_append]

theorem Ledger.enterAll_congr {turn turn' : String → Turn} {ids : List String}
    (h : ∀ id ∈ ids, turn id = turn' id) (l : Ledger) :
    l.enterAll turn ids = l.enterAll turn' ids := by
  have hforms : ids.filterMap (fun id => (turn id).form) =
      ids.filterMap fun id => (turn' id).form :=
    filterMap_congr fun id hid => by rw [h id hid]
  have hskipped : ids.filter (fun id => (turn id).form.isNone) =
      ids.filter fun id => (turn' id).form.isNone :=
    filter_congr fun id hid => by rw [h id hid]
  have hnoted : ids.flatMap (fun id => (turn id).noted) = ids.flatMap fun id => (turn' id).noted :=
    flatMap_congr fun id hid => by rw [h id hid]
  rw [enterAll, hforms, hskipped, hnoted, enterAll]

/-- What is settled is the same but for the order. -/
structure Ledger.Same (l l' : Ledger) : Prop where
  forms : l.forms ~ l'.forms
  skipped : l.skipped ~ l'.skipped
  external : l.external ~ l'.external
  keys : (l.external.map (·.1)).Nodup

theorem Ledger.enterAll_same {l l' : Ledger} (h : l.Same l') (hl : l.external = [])
    (hl' : l'.external = []) {turn : String → Turn} {ids ids' : List String} (hids : ids ~ ids')
    (hkey : ∀ e ∈ ids.flatMap fun id => (turn id).noted,
      ∀ f ∈ ids.flatMap fun id => (turn id).noted, e.1 = f.1 → e = f) :
    (l.enterAll turn ids).Same (l'.enterAll turn ids') := by
  refine ⟨h.forms.append (hids.filterMap _), h.skipped.append (hids.filter _), ?_, ?_⟩
  · rw [enterAll, hl, enterAll, hl']
    exact putFeeds_perm (hids.flatMap_right _) hkey
  · exact nodup_putFeeds h.keys _

/-! ## Shapes after turns -/

theorem Ledger.shape?_enter (l : Ledger) {id other : String} {t : Turn}
    (ht : ∀ F ∈ t.form, F.id = id) (hne : other ≠ id) :
    (l.enter id t).shape? other = l.shape? other := by
  rw [shape?, enter, find?_append]
  cases hform : t.form with
  | none => simp [shape?]
  | some F =>
      have hF : (F.id == other) = false := by simpa [ht F hform] using hne.symm
      simp [shape?, hF]

theorem Ledger.shape?_enter_self (l : Ledger) {id : String} {t : Turn}
    (ht : ∀ F ∈ t.form, F.id = id) (hnew : l.shape? id = none) :
    (l.enter id t).shape? id = t.form.map (·.outputShape) := by
  rw [shape?, Option.map_eq_none_iff] at hnew
  rw [shape?, enter, find?_append, hnew]
  cases hform : t.form with
  | none => rfl
  | some F => simp [ht F hform]

theorem Ledger.shape?_enterAll {l : Ledger} (hl : l.forms = []) {turn : String → Turn}
    {ids : List String} (hturn : ∀ id ∈ ids, ∀ F ∈ (turn id).form, F.id = id)
    (hnodup : ids.Nodup) (id : String) : (l.enterAll turn ids).shape? id =
      if id ∈ ids then (turn id).form.map (·.outputShape) else none := by
  induction ids using List.reverseRecOn with
  | nil => simp [enterAll, shape?, hl]
  | append_singleton ids last ih =>
      obtain ⟨hids, -, hlast⟩ := nodup_append.mp hnodup
      have hlast : last ∉ ids := fun hmem => hlast last hmem last mem_cons_self rfl
      have ih := ih (fun id hid => hturn id (mem_append_left _ hid)) hids
      have hturn := hturn last (mem_append_right _ mem_cons_self)
      rw [enterAll_concat]
      by_cases hid : id = last
      · subst hid
        rw [if_neg hlast] at ih
        rw [shape?_enter_self _ hturn ih, if_pos (mem_append_right _ mem_cons_self)]
      · rw [shape?_enter _ hturn hid, ih]
        simp [hid]

/-! ## Orders -/

variable {α : Type} [Scalar α] {plan plan' : Plan} {p q : Progress α}

/-- In an order every node of a plan comes after the nodes that feed it. -/
structure Plan.Ordered (plan : Plan) (order : List String) : Prop where
  nodup : order.Nodup
  known : ∀ id ∈ order, (plan.node? id).isSome
  forward : ∀ before id after, order = before ++ id :: after → ∀ n, plan.node? id = some n →
    ∀ d, ∀ c ∈ plan.incoming d n, c.source ∈ order → c.source ∈ before

omit [Scalar α] in
theorem Plan.Ordered.notMem {order before after : List String} {id : String}
    (h : plan.Ordered order) (hsplit : order = before ++ id :: after) :
    id ∉ before ∧ id ∉ after := by
  have hnodup : (before ++ id :: after).Nodup := hsplit ▸ h.nodup
  rw [nodup_middle, nodup_cons, mem_append, not_or] at hnodup
  exact hnodup.1

omit [Scalar α] in
theorem Plan.Like.refl (plan : Plan) : plan.Like plan := ⟨rfl, rfl, fun _ => rfl, fun _ _ => rfl⟩

omit [Scalar α] in
theorem Plan.Like.symm (h : plan.Like plan') : plan'.Like plan :=
  ⟨h.catalog.symm, h.input.symm, fun id => (h.node id).symm, fun d n => (h.incoming d n).symm⟩

omit [Scalar α] in
theorem Plan.Like.ordered (h : plan.Like plan') {order : List String}
    (horder : plan'.Ordered order) : plan.Ordered order := by
  refine ⟨horder.nodup, fun id hid => ?_, fun before id after hsplit n hn d c hc hsource => ?_⟩
  · rw [← Option.isSome_map, ← h.node id, Option.isSome_map]
    exact horder.known id hid
  · obtain ⟨mark, hn'⟩ := h.node?_eq_some hn
    rw [← h.incoming d n] at hc
    exact horder.forward before id after hsplit _ hn' d c hc hsource

theorem place_turn {id : String} (hid : (plan.node? id).isSome) {p' : Progress α}
    (h : place plan p id = .ok p') :
    ∃ t : Turn, t.Of plan id ∧ p'.ledger = p.ledger.enter id t := by
  obtain ⟨n, hn⟩ := Option.isSome_iff_exists.mp hid
  obtain rfl := Plan.node?_id hn
  obtain ⟨-, -, t, ht, hp, -⟩ := (place_twin (.refl plan) hn fun _ _ _ => rfl).eq_ok h
  exact ⟨t, ht, hp⟩

theorem shape?_foldlM_place {ids : List String} (hids : ∀ id ∈ ids, (plan.node? id).isSome)
    {p' : Progress α} (h : ids.foldlM (place plan) p = .ok p') {other : String}
    (hother : other ∉ ids) : p'.ledger.shape? other = p.ledger.shape? other := by
  induction ids generalizing p with
  | nil =>
      obtain rfl := Except.ok.inj h
      rfl
  | cons id ids ih =>
      rw [foldlM_cons, bind_eq_ok] at h
      obtain ⟨p₁, hp₁, h⟩ := h
      obtain ⟨t, ht, hledger⟩ := place_turn (hids id mem_cons_self) hp₁
      rw [mem_cons, not_or] at hother
      rw [ih (fun id hid => hids id (mem_cons_of_mem _ hid)) h hother.2, hledger,
        Ledger.shape?_enter _ ht.id hother.1]

/-- The turn of a node in a compilation of nodes in order. -/
def TurnIn (plan : Plan) (p : Progress α) (order : List String) (id : String) (t : Turn) : Prop :=
  ∀ before after a b, order = before ++ id :: after → before.foldlM (place plan) p = .ok a →
    place plan a id = .ok b → b.ledger = a.ledger.enter id t

/-- What a node has become is told from its turn, however long ago that was. -/
theorem shape?_of_turnIn {order before rest : List String} (horder : plan.Ordered order)
    (hp : p.ledger.forms = []) (hbefore : order = before ++ rest) {a : Progress α}
    (h : before.foldlM (place plan) p = .ok a) {id : String} (hid : id ∈ before) {t : Turn}
    (ht : t.Of plan id) (hturn : TurnIn plan p order id t) :
    a.ledger.shape? id = t.form.map (·.outputShape) := by
  obtain ⟨first, between, rfl⟩ := append_of_mem hid
  rw [foldlM_append, bind_eq_ok] at h
  obtain ⟨a₁, ha₁, h⟩ := h
  rw [foldlM_cons, bind_eq_ok] at h
  obtain ⟨b, hb, h⟩ := h
  rw [append_assoc, cons_append] at hbefore
  obtain ⟨hfirst, hlater⟩ := horder.notMem hbefore
  have hknown : ∀ ids ⊆ order, ∀ id ∈ ids, (plan.node? id).isSome :=
    fun ids hids id hid => horder.known id (hids hid)
  have hstart : a₁.ledger.shape? id = none := by
    rw [shape?_foldlM_place (hknown first (by simp [hbefore])) ha₁ hfirst, Ledger.shape?, hp]
    rfl
  have hbetween : between ⊆ order := by
    rw [hbefore]
    exact subset_append_of_subset_right _ (subset_cons_of_subset _ (subset_append_left _ _))
  rw [shape?_foldlM_place (hknown between hbetween) h fun hmem => hlater (mem_append_left _ hmem),
    hturn first (between ++ rest) a₁ b hbefore ha₁ hb, Ledger.shape?_enter_self _ ht.id hstart]

/-- A compilation goes on as another one has gone, whatever the order was there. -/
structure Follows (plan plan' : Plan) (p q : Progress α) (order done : List String)
    (turn : String → Turn) (q' : Progress α) : Prop where
  run : done.foldlM (place plan') q = .ok q'
  ledger : q'.ledger = q.ledger.enterAll turn done
  of : ∀ id ∈ done, (turn id).Of plan id
  turn : ∀ id ∈ done, TurnIn plan p order id (turn id)

theorem exists_turnIn {order : List String} {p' : Progress α}
    (h : order.foldlM (place plan) p = .ok p') {id : String} (hid : id ∈ order) :
    ∃ before after a b, order = before ++ id :: after ∧ before.foldlM (place plan) p = .ok a ∧
      place plan a id = .ok b := by
  obtain ⟨before, after, rfl⟩ := append_of_mem hid
  rw [foldlM_append, bind_eq_ok] at h
  obtain ⟨a, ha, h⟩ := h
  rw [foldlM_cons, bind_eq_ok] at h
  obtain ⟨b, hb, -⟩ := h
  exact ⟨before, after, a, b, rfl, ha, hb⟩

/-- Where a node has its turn, the sources of its connections have the same shapes in both. -/
theorem Follows.shape? {order order' : List String} (hperm : order' ~ order)
    (horder : plan.Ordered order) (horder' : plan.Ordered order') (hp : p.ledger.forms = [])
    (hq : q.ledger.forms = []) {before after done rest : List String} {n : Node}
    (hbefore : order = before ++ n.id :: after) (hdone : order' = done ++ n.id :: rest)
    {a q₁ : Progress α} {turn : String → Turn} (h : Follows plan plan' p q order done turn q₁)
    (ha : before.foldlM (place plan) p = .ok a) (hn : plan.node? n.id = some n)
    {d : BlockDefinition} {c : Connection} (hc : c ∈ plan.incoming d n) :
    a.ledger.shape? c.source = q₁.ledger.shape? c.source := by
  have hnodup : (done ++ n.id :: rest).Nodup := hdone ▸ horder'.nodup
  have hknown : ∀ id ∈ before, (plan.node? id).isSome := fun id hid =>
    horder.known id (hbefore ▸ mem_append_left _ hid)
  rw [h.ledger, Ledger.shape?_enterAll hq (fun id hid => (h.of id hid).id)
    (nodup_append.mp hnodup).1]
  by_cases hmem : c.source ∈ done
  · have hsource := horder.forward before n.id after hbefore n hn d c hc
      (hperm.subset (hdone ▸ mem_append_left _ hmem))
    rw [if_pos hmem]
    exact shape?_of_turnIn horder hp hbefore ha hsource (h.of _ hmem)
      (h.turn _ hmem)
  -- a source that is not yet done has no turn before the node in the first order either
  · have hsource : c.source ∉ before := by
      intro hin
      refine hmem (horder'.forward done n.id rest hdone n hn d c hc (hperm.symm.subset ?_))
      exact hbefore ▸ mem_append_left _ hin
    rw [if_neg hmem, shape?_foldlM_place hknown ha hsource, Ledger.shape?, hp]
    rfl

theorem Follows.concat {order done : List String} {turn : String → Turn} {q₁ q₂ : Progress α}
    {id : String} (h : Follows plan plan' p q order done turn q₁) (hnew : id ∉ done)
    (hq₂ : place plan' q₁ id = .ok q₂) {t : Turn} (ht : t.Of plan id)
    (hturn : TurnIn plan p order id t) (hledger : q₂.ledger = q₁.ledger.enter id t) :
    Follows plan plan' p q order (done ++ [id]) (Function.update turn id t) q₂ := by
  have hsame : ∀ other ∈ done, Function.update turn id t other = turn other := by
    intro other hother
    exact Function.update_of_ne (ne_of_mem_of_not_mem hother hnew) _ _
  constructor
  · rw [foldlM_append, h.run]
    exact bind_eq_ok.mpr ⟨q₁, rfl, bind_eq_ok.mpr ⟨q₂, hq₂, rfl⟩⟩
  · rw [Ledger.enterAll_concat, Ledger.enterAll_congr hsame, Function.update_self, hledger,
      h.ledger]
  · rw [forall_mem_append, forall_mem_singleton, Function.update_self]
    exact ⟨fun other hother => hsame other hother ▸ h.of other hother, ht⟩
  · rw [forall_mem_append, forall_mem_singleton, Function.update_self]
    exact ⟨fun other hother => hsame other hother ▸ h.turn other hother, hturn⟩

/-- A compilation of nodes in one order settles how a compilation in another order goes. -/
theorem exists_follows (hplan : plan.Like plan') {order order' : List String}
    (hperm : order' ~ order) (horder : plan.Ordered order) (horder' : plan.Ordered order')
    (hp : p.ledger.forms = []) (hq : q.ledger.forms = []) {p' : Progress α}
    (h : order.foldlM (place plan) p = .ok p') (done rest : List String)
    (hdone : order' = done ++ rest) :
    ∃ turn q', Follows plan plan' p q order done turn q' := by
  -- on what the other order has done: its next node meets the sources it has met in the first one
  induction done using List.reverseRecOn generalizing rest with
  | nil =>
      exact ⟨fun _ => ⟨none, []⟩, q, rfl, (Ledger.enterAll_nil _ _).symm, by simp, by simp⟩
  | append_singleton done id ih =>
      rw [append_assoc, singleton_append] at hdone
      obtain ⟨turn, q₁, hfollows⟩ := ih (id :: rest) hdone
      have hid : id ∈ order := hperm.subset (hdone ▸ mem_append_right _ mem_cons_self)
      obtain ⟨before, after, a, b, hbefore, ha, hb⟩ := exists_turnIn h hid
      obtain ⟨n, hn⟩ := Option.isSome_iff_exists.mp (horder.known id hid)
      obtain rfl := Plan.node?_id hn
      have hshapes := fun d c (hc : c ∈ plan.incoming d n) =>
        hfollows.shape? hperm horder horder' hp hq hbefore hdone ha hn hc
      obtain ⟨q₂, hq₂, t, ht, hbt, hqt⟩ := (place_twin hplan hn hshapes).eq_ok hb
      refine ⟨_, q₂, hfollows.concat (horder'.notMem hdone).1 hq₂ ht ?_ hqt⟩
      -- the first order comes to the node once, so this turn is the only one there
      intro before' after' a' b' hbefore' ha' hb'
      obtain ⟨hfirst, hlast⟩ := horder.notMem hbefore
      obtain ⟨rfl, -, -⟩ :=
        (append_cons_inj_of_notMem hfirst hlast).mp (hbefore.symm.trans hbefore')
      obtain rfl := Except.ok.inj (ha.symm.trans ha')
      obtain rfl := Except.ok.inj (hb.symm.trans hb')
      exact hbt

theorem ledger_of_turnIn {order before rest : List String} (hbefore : order = before ++ rest)
    {turn : String → Turn} (hturn : ∀ id ∈ before, TurnIn plan p order id (turn id))
    {a : Progress α} (h : before.foldlM (place plan) p = .ok a) :
    a.ledger = p.ledger.enterAll turn before := by
  induction before using List.reverseRecOn generalizing rest a with
  | nil =>
      obtain rfl := Except.ok.inj h
      exact (Ledger.enterAll_nil _ _).symm
  | append_singleton before id ih =>
      rw [foldlM_append, bind_eq_ok] at h
      obtain ⟨a₁, ha₁, h⟩ := h
      obtain ⟨b, hb, h⟩ := bind_eq_ok.mp h
      obtain rfl := Except.ok.inj h
      rw [append_assoc, singleton_append] at hbefore
      rw [Ledger.enterAll_concat, ← ih hbefore (fun id hid => hturn id (mem_append_left _ hid)) ha₁]
      exact hturn id (mem_append_right _ mem_cons_self) before rest a₁ b hbefore ha₁ hb

/-- Where keys can be told apart: ports have texts as names, and ids hold no dots. -/
structure Plan.Plain (plan : Plan) : Prop where
  text : plan.catalog.TextPorts
  undotted : ∀ n ∈ plan.known, '.' ∉ n.id.toList

omit [Scalar α] in
/-- What is noted under a key has one shape. -/
theorem Noted.unique (hplain : plan.Plain) {e f : Feed} {d d' : BlockDefinition}
    {source source' : Node} {port port' : Value} (he : Noted plan e d source port)
    (hf : Noted plan f d' source' port') (h : e.1 = f.1) : e = f := by
  refine Prod.ext h (he.shape.unique_of_key hplain.text
    (hplain.undotted _ (mem_of_find?_eq_some he.node))
    (hplain.undotted _ (mem_of_find?_eq_some hf.node)) ?_ he.definition hf.definition hf.shape
    (he.key.symm.trans (h.trans hf.key)))
  intro hid
  exact Option.some.inj (he.node.symm.trans (hid ▸ hf.node))

/-- Nodes compiled in two orders come to the same. -/
theorem foldlM_place_permuted (hplain : plan.Plain) (hplan : plan.Like plan')
    {order order' : List String} (hperm : order' ~ order) (horder : plan.Ordered order)
    (horder' : plan.Ordered order') (hp : p.layers = [] ∧ p.external = [])
    (hq : q.layers = [] ∧ q.external = []) (hskipped : p.skipped ~ q.skipped) {p' : Progress α}
    (h : order.foldlM (place plan) p = .ok p') :
    ∃ q', order'.foldlM (place plan') q = .ok q' ∧ p'.ledger.Same q'.ledger := by
  have hpforms : p.ledger.forms = [] := by rw [Progress.ledger, hp.1, map_nil]
  have hqforms : q.ledger.forms = [] := by rw [Progress.ledger, hq.1, map_nil]
  obtain ⟨turn, q', hfollows⟩ := exists_follows hplan hperm horder horder' hpforms hqforms h
    order' [] (append_nil _).symm
  have hmem : ∀ id ∈ order, id ∈ order' := fun id hid => hperm.symm.subset hid
  refine ⟨q', hfollows.run, ?_⟩
  rw [ledger_of_turnIn (append_nil _).symm (fun id hid => hfollows.turn id (hmem id hid)) h,
    hfollows.ledger]
  have hstart : p.ledger.Same q.ledger := by
    refine ⟨?_, hskipped, ?_, ?_⟩
    · rw [hpforms, hqforms]
    · rw [Progress.ledger, Progress.ledger, hp.2, hq.2]
    · simp [Progress.ledger, hp.2]
  refine Ledger.enterAll_same hstart hp.2 hq.2 hperm.symm ?_
  intro e he f hf hkey
  obtain ⟨id, hid, he⟩ := mem_flatMap.mp he
  obtain ⟨id', hid', hf⟩ := mem_flatMap.mp hf
  obtain ⟨d, source, port, hnoted⟩ := (hfollows.of id (hmem id hid)).noted e he
  obtain ⟨d', source', port', hnoted'⟩ := (hfollows.of id' (hmem id' hid')).noted f hf
  exact hnoted.unique hplain hnoted' hkey

/-- Two plans alike go well in the same orders. -/
theorem foldlM_place_twin (hplain : plan.Plain) (hplain' : plan'.Plain) (hplan : plan.Like plan')
    {order order' : List String} (hperm : order' ~ order) (horder : plan.Ordered order)
    (horder' : plan'.Ordered order') (hp : p.layers = [] ∧ p.external = [])
    (hq : q.layers = [] ∧ q.external = []) (hskipped : p.skipped ~ q.skipped) :
    Twin anyFault (fun p' q' => p'.ledger.Same q'.ledger) (order.foldlM (place plan) p)
      (order'.foldlM (place plan') q) := by
  refine .of_follow (fun _ _ => trivial) ?_ ?_
  · intro p' hp'
    exact foldlM_place_permuted hplain hplan hperm horder (hplan.ordered horder') hp hq hskipped hp'
  · intro q' hq'
    obtain ⟨p', hp', -⟩ := foldlM_place_permuted hplain' hplan.symm hperm.symm horder'
      (hplan.symm.ordered horder) hq hp hskipped.symm hq'
    exact ⟨p', hp'⟩

end BlockNet.Compilation
