import BlockNet.Proofs.Compilation.Account
import BlockNet.Proofs.Compilation.Outside

/-! # Outside feeds that a model lists

A model lists the outside feeds that were found for its nodes in their turns. It finds them before it
cuts the feeds of a node to what its kernel takes, and before a node is skipped, so it may list feeds
that no layer consumes: those whose every connection is cut off or ends at a node that is skipped. -/

namespace BlockNet

/-- The keys that layers are fed under from outside the model. -/
def Model.consumed {α : Type} (m : Model α) : List String :=
  (m.layers.flatMap (·.feeds)).filter fun key =>
    !(m.layers.map (·.id)).contains key && key != modelInput

namespace Compilation

open List

variable {α : Type} {catalog : Catalog} {g : Graph}

/-! ## What a graph offers -/

/-- A connection offers an outside feed under a key: it leads from a port of a source of a known type
that does not become a layer, to a node that is to become one and has a kernel. -/
structure Offers (catalog : Catalog) (g : Graph) (c : Connection) (key : String) : Prop where
  mem : c ∈ g.connections
  target : ∃ n, known? catalog g c.target = some n ∧ catalog.isComputational n.blockType = true ∧
    (Kernel.ofKind? n.blockType).isSome
  source : ∃ d source, known? catalog g c.source = some source ∧
    catalog.get? source.blockType = some d ∧ d.computational = false ∧
    (d.outputPort? c.sourcePort).isSome ∧ key = feedKey d source c.sourcePort

theorem origin?_eq_outside_iff {known? : String → Option Node} {ready : Connection → Bool}
    {c : Connection} {d : BlockDefinition} {source : Node} {port : Value} :
    origin? catalog known? ready c = some (.outside d source port) ↔
      known? c.source = some source ∧ ready c = false ∧ catalog.get? source.blockType = some d ∧
        d.computational = false ∧ (d.outputPort? c.sourcePort).isSome ∧ port = c.sourcePort := by
  constructor
  · intro h
    obtain ⟨hsource, hd, hquiet⟩ := origin?_eq_outside h
    simp only [origin?, hsource, hd, hquiet] at h
    cases hready : ready c with
    | true => simp [hready] at h
    | false =>
        simp only [hready, Bool.false_eq_true, if_false] at h
        obtain ⟨output, hport, horigin⟩ := Option.map_eq_some_iff.mp h
        cases horigin
        exact ⟨hsource, rfl, hd, hquiet, by rw [hport]; rfl, rfl⟩
  · rintro ⟨hsource, hready, hd, hquiet, hport, rfl⟩
    obtain ⟨output, hport⟩ := Option.isSome_iff_exists.mp hport
    simp [origin?, hsource, hready, hd, hquiet, hport]

/-- Outside feeds are noted under the keys of outside origins. -/
theorem Fed.mem_external {plan : Plan} {p p' : Progress α} {connections : List Connection}
    {ready : Connection → Bool} {fed : List (Origin × TensorShape)}
    (h : Fed plan p p'
      (orInput (connections.filterMap (origin? plan.catalog plan.node? ready))) fed)
    (key : String) : key ∈ p'.external.map (·.1) ↔ key ∈ p.external.map (·.1) ∨
      ∃ c ∈ connections, ∃ d source port,
        origin? plan.catalog plan.node? ready c = some (.outside d source port) ∧
          key = feedKey d source port := by
  have horigin : ∀ d source port, (∃ shape, (Origin.outside d source port, shape) ∈ fed) ↔
      ∃ c ∈ connections,
        origin? plan.catalog plan.node? ready c = some (.outside d source port) := by
    intro d source port
    have hmem : (∃ shape, (Origin.outside d source port, shape) ∈ fed) ↔
        Origin.outside d source port ∈ fed.map (·.1) := by simp
    rw [hmem, h.origins, orInput, ← List.mem_filterMap]
    split
    · rename_i hnone
      rw [List.isEmpty_iff.mp hnone]
      simp
    · rfl
  rw [h.external]
  constructor
  · intro hkey
    obtain ⟨e, he, rfl⟩ := List.mem_map.mp hkey
    rcases mem_foldl_note he with he | ⟨d, source, port, shape, hx, rfl⟩
    · exact .inl (List.mem_map_of_mem he)
    · obtain ⟨c, hc, hc'⟩ := (horigin d source port).mp ⟨shape, hx⟩
      exact .inr ⟨c, hc, d, source, port, hc', rfl⟩
  · rintro (hkey | ⟨c, hc, d, source, port, hc', rfl⟩)
    · exact (keys_foldl_note fed p.external).1 hkey
    · obtain ⟨shape, hx⟩ := (horigin d source port).mpr ⟨c, hc, hc'⟩
      exact (keys_foldl_note fed p.external).2 d source port shape hx

/-! ## The turn of a node -/

section Turn

theorem mem_putOnce {texts : List String} {text key : String} :
    key ∈ putOnce texts text ↔ key ∈ texts ∨ key = text := by
  rw [putOnce]
  split
  · rename_i h
    constructor
    · exact .inl
    · rintro (hkey | rfl)
      · exact hkey
      · exact List.contains_iff_mem.mp h
  · simp

/-- Feeds of labels are feeds of ports, and those are listed. -/
structure Progress.Tabled (p : Progress α) : Prop where
  labels : p.labelInputs ⊆ p.portInputs
  ports : p.portInputs ⊆ p.external.map (·.1)

theorem Progress.Tabled.addExternal {p : Progress α} (h : p.Tabled) (source : Node) (port : Value)
    (key : String) (shape : TensorShape) : (p.addExternal source port key shape).Tabled := by
  obtain ⟨hkey, hkept⟩ := List.cons_subset.mp (keys_putFeed p.external key shape)
  rw [Progress.addExternal]
  by_cases hsecondary : (key != source.id) = true
  · simp only [hsecondary, if_true, Bool.true_and]
    constructor
    · intro label hlabel
      split at hlabel
      · exact mem_putOnce.mpr ((mem_putOnce.mp hlabel).imp_left (@h.labels label))
      · exact mem_putOnce.mpr (.inl (h.labels hlabel))
    · intro port hport
      rcases mem_putOnce.mp hport with hport | rfl
      · exact hkept (h.ports hport)
      · exact hkey
  · simp only [hsecondary, Bool.false_and, Bool.false_eq_true, if_false]
    exact ⟨h.labels, List.Subset.trans h.ports hkept⟩

/-- A property of the tables of outside feeds that noting one more of them keeps. -/
structure KeptByNotes (P : Progress α → Prop) : Prop where
  tables : ∀ {p p' : Progress α}, P p → p'.external = p.external → p'.portInputs = p.portInputs →
    p'.labelInputs = p.labelInputs → P p'
  note : ∀ {p : Progress α} (d : BlockDefinition) (source : Node) (port : Value)
    (shape : TensorShape), P p → P (p.addExternal source port (feedKey d source port) shape)

theorem keptByNotes_tabled : KeptByNotes (Progress.Tabled (α := α)) where
  tables hp hexternal hports hlabels :=
    ⟨by rw [hlabels, hports]; exact hp.labels, by rw [hports, hexternal]; exact hp.ports⟩
  note _ source port shape hp := hp.addExternal source port _ shape

theorem addFeed_keeps {P : Progress α → Prop} (hP : KeptByNotes P) {plan : Plan}
    {p p' : Progress α} {feeds feeds' : List Feed} {c : Connection} (hp : P p)
    (h : addFeed plan (p, feeds) c = .ok (p', feeds')) : P p' := by
  simp only [addFeed] at h
  split at h
  · cases h
    exact hp
  · split at h
    · cases h
      exact hp
    · split at h
      · cases h
        exact hp
      · have hlogged : ∀ log, P { p with log } := fun _ => hP.tables hp rfl rfl rfl
        split at h
        · cases h
        · cases h
          exact hP.note _ _ _ _ (hlogged _)
        · cases h
          exact hlogged _

theorem feedsOf_keeps {P : Progress α → Prop} (hP : KeptByNotes P) {plan : Plan}
    {p p' : Progress α} {d : BlockDefinition} {n : Node} {feeds : List Feed} (hp : P p)
    (h : feedsOf plan p d n = .ok (p', feeds)) : P p' := by
  obtain ⟨⟨p₁, fed⟩, hfold, h⟩ := bind_eq_ok.mp h
  obtain ⟨rfl, -⟩ := Prod.mk.inj (Except.ok.inj h)
  exact foldlM_induction (P := fun _ x => P x.1) (fun _ _ _ _ ha hb => addFeed_keeps hP ha hb)
    hp hfold

theorem noteMismatch_tables (p : Progress α) (n : Node) (shapes : List TensorShape) :
    (noteMismatch p n shapes).portInputs = p.portInputs ∧
      (noteMismatch p n shapes).labelInputs = p.labelInputs := by
  rw [noteMismatch]
  split
  · exact ⟨rfl, rfl⟩
  · exact ⟨rfl, rfl⟩

variable [Scalar α]

/-- Making a layer, or leaving it out, changes no table. -/
theorem addLayer_tables {k : Kernel} {p p' : Progress α} {n : Node} {params : Entries}
    {feeds : List Feed} (h : addLayer k p n params feeds = .ok p') :
    p'.portInputs = p.portInputs ∧ p'.labelInputs = p.labelInputs := by
  simp only [addLayer] at h
  rcases hmade : (construct k params (feeds.map (·.2)) : Draws (_ × List (Weight α))).run
    p.generator with ⟨fault | ⟨shape, weights⟩, r⟩
  · simp only [hmade] at h
    split at h
    · obtain rfl := Except.ok.inj h
      exact ⟨rfl, rfl⟩
    · cases h
    · cases ‹Except.error fault = Except.ok _›
  · simp only [hmade] at h
    obtain rfl := Except.ok.inj h
    exact noteMismatch_tables _ _ _

/-- A node in its turn: it has no kernel and is passed by, or its feeds are gathered, those that its
kernel takes are kept, and a layer is made or left out. -/
theorem place_eq_ok {plan : Plan} {p p' : Progress α} {id : String}
    (h : place plan p id = .ok p') :
    ((∀ n, plan.node? id = some n →
        Kernel.ofKind? n.blockType = none ∨ plan.catalog.get? n.blockType = none) ∧
      ∃ warnings skipped log, p' = { p with warnings, skipped, log }) ∨
    ∃ n k d p₁ feeds params warnings, plan.node? id = some n ∧
      Kernel.ofKind? n.blockType = some k ∧ plan.catalog.get? n.blockType = some d ∧
      feedsOf plan p d n = .ok (p₁, feeds) ∧ d.effectiveParams n.params = .ok params ∧
      addLayer k { p₁ with warnings } n params (limited k feeds) = .ok p' := by
  rw [place] at h
  cases hnode : plan.node? id with
  | none =>
      rw [hnode] at h
      obtain rfl := Except.ok.inj h
      exact .inl ⟨by simp, _, _, _, rfl⟩
  | some n =>
      simp only [hnode] at h
      split at h
      · rename_i k d hk hd
        obtain ⟨⟨p₁, feeds⟩, hfeeds, h⟩ := bind_eq_ok.mp h
        obtain ⟨params, hparams, h⟩ := bind_eq_ok.mp h
        rw [orStop_eq_ok] at hparams
        obtain ⟨warnings, hp₁⟩ := limitFeeds_fst k p₁ n feeds
        rw [hp₁, limitFeeds_snd] at h
        exact .inr ⟨n, k, d, p₁, feeds, params, warnings, rfl, hk, hd, hfeeds, hparams, h⟩
      · rename_i hnone
        obtain rfl := Except.ok.inj h
        refine .inl ⟨?_, _, _, _, rfl⟩
        intro n' hn'
        obtain rfl := Option.some.inj hn'
        cases hk : Kernel.ofKind? n.blockType with
        | none => exact .inl rfl
        | some k =>
            cases hd : plan.catalog.get? n.blockType with
            | none => exact .inr rfl
            | some d => exact absurd hd (hnone k d hk)

theorem place_keeps {P : Progress α → Prop} (hP : KeptByNotes P) {plan : Plan}
    {p p' : Progress α} {id : String} (hp : P p) (h : place plan p id = .ok p') : P p' := by
  rcases place_eq_ok h with ⟨-, _, _, _, rfl⟩ |
    ⟨n, k, d, p₁, feeds, params, _, -, -, -, hfeeds, -, hadd⟩
  · exact hP.tables hp rfl rfl rfl
  · obtain ⟨hports, hlabels⟩ := addLayer_tables hadd
    exact hP.tables (feedsOf_keeps hP hp hfeeds) (addLayer_eq_ok hadd).1 hports hlabels

omit [Scalar α] in
theorem known?_candidate (hids : (g.nodes.map (·.id)).Nodup) {n : Node}
    (hn : n ∈ candidates catalog g) (m : Model α) : known? catalog g n.id = some n :=
  node?_planOf hids m ▸ node?_candidate hids hn m

theorem isComputational_eq {d : BlockDefinition} {t : String} (h : catalog.get? t = some d) :
    catalog.isComputational t = d.computational := by
  rw [Catalog.isComputational, h]

omit [Scalar α] in
/-- What the connections into a node offer, as long as no source outside is taken for a layer. -/
theorem offers_iff (hids : (g.nodes.map (·.id)).Nodup) {m : Model α} {n : Node}
    (hn : n ∈ candidates catalog g) (hk : (Kernel.ofKind? n.blockType).isSome)
    (d : BlockDefinition) {ready : Connection → Bool}
    (hready : ∀ c, ready c = true → c.source ∈ (candidates catalog g).map (·.id)) (key : String) :
    (∃ c, Offers catalog g c key ∧ c.target = n.id) ↔
      ∃ c ∈ (planOf catalog g m).incoming d n, ∃ e source port,
        origin? catalog (planOf catalog g m).node? ready c = some (.outside e source port) ∧
          key = feedKey e source port := by
  simp only [origin?_eq_outside_iff, mem_incoming, node?_planOf hids]
  constructor
  · rintro ⟨c, hc, htarget⟩
    obtain ⟨e, source, hsource, he, hquiet, hport, hkey⟩ := hc.source
    have hnew : ready c = false := by
      refine Bool.eq_false_iff.mpr fun hr => ?_
      obtain ⟨s, hs, hid⟩ := List.mem_map.mp (hready c hr)
      obtain rfl := Option.some.inj ((known?_candidate hids hs m).symm.trans (hid ▸ hsource))
      have hcomp := (List.mem_filter.mp hs).2
      rw [isComputational_eq he, hquiet] at hcomp
      cases hcomp
    exact ⟨c, ⟨hc.mem, htarget, by rw [hsource]; rfl⟩, e, source, c.sourcePort,
      ⟨hsource, hnew, he, hquiet, hport, rfl⟩, hkey⟩
  · rintro ⟨c, ⟨hmem, htarget, -⟩, e, source, _, ⟨hsource, -, he, hquiet, hport, rfl⟩, hkey⟩
    refine ⟨c, ⟨hmem, ⟨n, ?_, (List.mem_filter.mp hn).2, hk⟩, ?_⟩, htarget⟩
    · rw [htarget]
      exact known?_candidate hids hn m
    · exact ⟨e, source, hsource, he, hquiet, hport, hkey⟩

/-- What is listed after the turn of a node: what was listed before, and what its connections
offer. -/
theorem place_external (hids : (g.nodes.map (·.id)).Nodup) {m : Model α} {p p' : Progress α}
    {id : String} (hid : id ∈ (candidates catalog g).map (·.id))
    (hlayers : p.layers.map (·.id) ⊆ (candidates catalog g).map (·.id))
    (h : place (planOf catalog g m) p id = .ok p') (key : String) :
    key ∈ p'.external.map (·.1) ↔
      key ∈ p.external.map (·.1) ∨ ∃ c, Offers catalog g c key ∧ c.target = id := by
  obtain ⟨n, hn, rfl⟩ := List.mem_map.mp hid
  have hnode := node?_candidate hids hn m
  rcases place_eq_ok h with ⟨hkernel, _, _, _, rfl⟩ |
    ⟨n', k, d, p₁, feeds, params, _, hnode', hk, hd, hfeeds, -, hadd⟩
  · obtain ⟨d, hd⟩ := exists_get?_of_isComputational (List.mem_filter.mp hn).2
    have hnone : Kernel.ofKind? n.blockType = none :=
      (hkernel n hnode).resolve_right fun hmissing => by cases hd.symm.trans hmissing
    refine ⟨.inl, ?_⟩
    rintro (hkey | ⟨c, hc, htarget⟩)
    · exact hkey
    · obtain ⟨n', hn', -, hk⟩ := hc.target
      rw [htarget, known?_candidate hids hn m] at hn'
      obtain rfl := Option.some.inj hn'
      rw [hnone] at hk
      cases hk
  · obtain rfl := Option.some.inj (hnode.symm.trans hnode')
    obtain ⟨fed, rfl, hfed⟩ := feedsOf_fed hfeeds
    have hready : ∀ c, p.ready c = true → c.source ∈ (candidates catalog g).map (·.id) := by
      intro c hc
      exact hlayers (Progress.isSome_layer?.mp hc)
    rw [(addLayer_eq_ok hadd).1, offers_iff (m := m) hids hn (by rw [hk]; rfl) d hready]
    exact hfed.mem_external key

end Turn

/-! ## All turns -/

section Lists

variable [Scalar α] {m : Model α} {r : Generator} {log : List LogEntry} {p : Progress α}
  {c : Connection} {key : String}

theorem Offers.target_mem (h : Offers catalog g c key) :
    c.target ∈ (candidates catalog g).map (·.id) := by
  obtain ⟨n, hn, hcomp, -⟩ := h.target
  obtain ⟨hmem, hid⟩ := known?_mem hn
  exact List.mem_map.mpr ⟨n, List.mem_filter.mpr ⟨hmem, hcomp⟩, hid⟩

/-- A model lists what its graph offers. -/
theorem Completed.external_iff (h : Completed catalog g m r log p)
    (hids : (g.nodes.map (·.id)).Nodup) (key : String) :
    key ∈ m.externalInputs.map (·.1) ↔ ∃ c, Offers catalog g c key := by
  have horder : (scheduleFor catalog g).order ~ (candidates catalog g).map (·.id) :=
    order_perm_candidates hids
  -- what is listed is offered to nodes that had their turns
  have hrun := foldlM_induction (P := fun done q => q.Sound (planOf catalog g m) done ∧
    (done ⊆ (candidates catalog g).map (·.id) → ∀ key, key ∈ q.external.map (·.1) ↔
      ∃ c, Offers catalog g c key ∧ c.target ∈ done)) ?_ ?_ h.turns
  · rw [h.external, hrun.2 horder.subset]
    constructor
    · rintro ⟨c, hc, -⟩
      exact ⟨c, hc⟩
    · rintro ⟨c, hc⟩
      exact ⟨c, hc, horder.symm.subset hc.target_mem⟩
  · rintro done id a b ⟨hsound, hlisted⟩ hb
    refine ⟨hsound.place hb, fun hdone key => ?_⟩
    obtain ⟨hbefore, hid⟩ := List.append_subset.mp hdone
    rw [place_external hids (hid List.mem_cons_self)
      (List.Subset.trans hsound.order.subset hbefore) hb, hlisted hbefore]
    simp only [List.mem_append, List.mem_singleton, and_or_left, exists_or]
  · exact ⟨Progress.sound_start _ _ _ _ _, by simp [Progress.start]⟩

theorem Completed.keeps {P : Progress α → Prop} (hP : KeptByNotes P)
    (hstart : ∀ warnings skipped, P (Progress.start r log warnings skipped))
    (h : Completed catalog g m r log p) : P p :=
  foldlM_induction (P := fun _ q => P q) (fun _ _ _ _ ha hb => place_keeps hP ha hb) (hstart _ _)
    h.turns

theorem Completed.tabled (h : Completed catalog g m r log p) :
    m.labelInputs ⊆ m.portInputs ∧ m.portInputs ⊆ m.externalInputs.map (·.1) := by
  have htabled := h.keeps keptByNotes_tabled fun _ _ => ⟨List.Subset.refl _, List.Subset.refl _⟩
  rw [h.labels, h.ports, h.external]
  exact ⟨htabled.labels, htabled.ports⟩

/-! ## What becomes of an offer -/

/-- Why an offered feed does not reach the node that a connection leads to: the node is skipped, or
its kernel takes no more inputs than it got from elsewhere. -/
inductive Dropped (m : Model α) (c : Connection) (key : String) : Prop where
  | skipped (hnode : c.target ∈ m.skippedNodes)
  | surplus (L : Layer α) (k : Kernel) (hL : L ∈ m.layers) (hid : L.id = c.target)
      (hk : Kernel.ofKind? L.kind = some k) (hfull : k.maxInputs? = some L.feeds.length)
      (hkey : key ∉ L.feeds)

theorem Compiled.layers_subset (h : Compiled catalog g m) (hids : (g.nodes.map (·.id)).Nodup) :
    m.layers.map (·.id) ⊆ (candidates catalog g).map (·.id) :=
  List.Subset.trans h.order.subset (order_perm_candidates hids).subset

/-- The outside origins of a layer, before they are cut to what its kernel takes, are those that the
connections to it offer. -/
theorem Compiled.offers_layer (h : Compiled catalog g m) (hids : (g.nodes.map (·.id)).Nodup)
    {earlier later : List (Layer α)} {L : Layer α} (hsplit : m.layers = earlier ++ L :: later)
    {n : Node} {k : Kernel} {d : BlockDefinition} {fed : List (Origin × TensorShape)}
    (hmade : Made (planOf catalog g m) earlier L n k d fed) (key : String) :
    (∃ c, Offers catalog g c key ∧ c.target = L.id) ↔
      ∃ e source port, Origin.outside e source port ∈
        ((planOf catalog g m).incoming d n).filterMap (origin? catalog (planOf catalog g m).node?
          fun c => (earlier.map (·.id)).contains c.source) ∧ key = feedKey e source port := by
  have hlayers := h.layers_subset hids
  obtain ⟨n', hn', hid⟩ := List.mem_map.mp
    (hlayers (List.mem_map_of_mem (hsplit ▸ List.mem_append_right _ List.mem_cons_self : L ∈ _)))
  obtain rfl := Option.some.inj ((node?_candidate hids hn' m).symm.trans (hid ▸ hmade.node))
  have hready : ∀ c : Connection, (earlier.map (·.id)).contains c.source = true →
      c.source ∈ (candidates catalog g).map (·.id) := by
    intro c hc
    refine hlayers ?_
    rw [hsplit, List.map_append]
    exact List.mem_append_left _ (List.contains_iff_mem.mp hc)
  rw [← hid, offers_iff (m := m) hids hn' (by rw [hmade.kernel]; rfl) d hready]
  simp only [List.mem_filterMap]
  constructor
  · rintro ⟨c, hc, e, source, port, ho, hkey⟩
    exact ⟨e, source, port, ⟨c, hc, ho⟩, hkey⟩
  · rintro ⟨e, source, port, ⟨c, hc, ho⟩, hkey⟩
    exact ⟨c, hc, e, source, port, ho, hkey⟩

/-- An offer feeds its layer or is dropped. -/
theorem Offers.fed_or_dropped (hc : Offers catalog g c key) (h : Compiled catalog g m)
    (hids : (g.nodes.map (·.id)).Nodup) {remarks : List Remark}
    (haccount : Accounted catalog g m remarks) :
    (∃ L ∈ m.layers, L.id = c.target ∧ key ∈ L.feeds) ∨ Dropped m c key := by
  have hsettled : c.target ∈ m.layers.map (·.id) ++ m.skippedNodes :=
    haccount.nodes.symm.subset (List.mem_append_right _ hc.target_mem)
  rcases List.mem_append.mp hsettled with hlayer | hskipped
  · obtain ⟨L, hL, hid⟩ := List.mem_map.mp hlayer
    obtain ⟨earlier, later, hsplit⟩ := List.append_of_mem hL
    obtain ⟨n, k, d, fed, hmade⟩ := h.made earlier L later hsplit
    obtain ⟨e, source, port, horigin, hkey⟩ :=
      (h.offers_layer hids hsplit hmade key).mp ⟨c, hc, hid.symm⟩
    by_cases hfed : key ∈ L.feeds
    · exact .inl ⟨L, hL, hid, hfed⟩
    refine .inr (.surplus L k hL hid (hmade.kind ▸ hmade.kernel) ?_ hfed)
    -- the origins are cut, and so there are as many feeds as the kernel takes
    have hfeeds : L.feeds = (fed.map (·.1)).map Origin.key := by
      rw [hmade.feeds, List.map_map]
      rfl
    rw [hfeeds, hmade.origins] at hfed ⊢
    generalize hall : ((planOf catalog g m).incoming d n).filterMap
      (origin? (planOf catalog g m).catalog (planOf catalog g m).node?
        fun c => (earlier.map (·.id)).contains c.source) = origins at hfed ⊢
    have horigin : Origin.outside e source port ∈ origins := hall ▸ horigin
    have hmany : orInput origins = origins := by
      rw [orInput, if_neg (by simpa using List.ne_nil_of_mem horigin)]
    rw [hmany] at hfed ⊢
    cases hlimit : k.maxInputs? with
    | none =>
        simp only [limited, hlimit] at hfed
        exact absurd (List.mem_map.mpr ⟨_, horigin, hkey.symm⟩) hfed
    | some limit =>
        simp only [limited, hlimit] at hfed ⊢
        rcases Nat.lt_or_ge limit origins.length with hlt | hle
        · rw [List.length_map, List.length_take, Nat.min_eq_left hlt.le]
        · rw [List.take_of_length_le hle] at hfed
          exact absurd (List.mem_map.mpr ⟨_, horigin, hkey.symm⟩) hfed
  · exact .inr (.skipped hskipped)

omit [Scalar α] in
theorem mem_consumed {key : String} : key ∈ m.consumed ↔
    (∃ L ∈ m.layers, key ∈ L.feeds) ∧ key ∉ m.layers.map (·.id) ∧ key ≠ modelInput := by
  simp [Model.consumed]

/-- What feeds a layer from outside was offered by a connection that is not dropped. -/
theorem Compiled.offered_of_consumed (h : Compiled catalog g m) (hids : (g.nodes.map (·.id)).Nodup)
    {remarks : List Remark} (haccount : Accounted catalog g m remarks) (hkey : key ∈ m.consumed) :
    ∃ c, Offers catalog g c key ∧ ¬Dropped m c key := by
  obtain ⟨⟨L, hL, hfed⟩, hlayer, hinput⟩ := mem_consumed.mp hkey
  obtain ⟨earlier, later, hsplit⟩ := List.append_of_mem hL
  obtain ⟨n, k, d, fed, hmade⟩ := h.made earlier L later hsplit
  rw [hmade.feeds] at hfed
  obtain ⟨⟨o, shape⟩, hx, rfl⟩ := List.mem_map.mp hfed
  have hgives := hmade.gives _ hx
  cases hgives with
  | layer K hK =>
      refine absurd ?_ hlayer
      rw [hsplit]
      exact List.mem_map_of_mem (List.mem_append_left _ hK)
  | input => exact absurd rfl hinput
  | outside e source port _ _ =>
      have horigin := List.mem_map_of_mem (f := (·.1)) hx
      rw [hmade.origins] at horigin
      have horigin := mem_of_mem_limited horigin
      rw [orInput] at horigin
      split at horigin
      · cases List.mem_singleton.mp horigin
      obtain ⟨c, hc, htarget⟩ :=
        (h.offers_layer hids hsplit hmade _).mpr ⟨e, source, port, horigin, rfl⟩
      refine ⟨c, hc, ?_⟩
      rintro (hskipped | ⟨L', k', hL', hid', -, -, hunfed⟩)
      · exact (List.nodup_append.mp haccount.distinct).2.2 _ (List.mem_map_of_mem hL) _
          (htarget ▸ hskipped) rfl
      · obtain rfl := List.inj_on_of_nodup_map h.nodup hL' hL (hid'.trans htarget)
        refine hunfed ?_
        rw [hmade.feeds]
        exact List.mem_map_of_mem (f := fun x : Origin × TensorShape => x.1.key) hx

/-- An offered key is taken neither for a layer nor for the input of the model. -/
theorem Offers.key_free (hc : Offers catalog g c key) (h : Compiled catalog g m)
    (hids : g.PlainIds) : key ∉ m.layers.map (·.id) ∧ key ≠ modelInput := by
  obtain ⟨d, source, hsource, hd, hquiet, -, rfl⟩ := hc.source
  obtain ⟨hmem, hid⟩ := known?_mem hsource
  have hundotted : ∀ id ∈ m.layers.map (·.id), '.' ∉ id.toList := by
    intro id hlayer
    obtain ⟨n, hn, rfl⟩ := List.mem_map.mp (h.layers_subset hids.distinct hlayer)
    exact hids.undotted n (List.mem_filter.mp hn).1
  rw [feedKey]
  split
  · refine ⟨fun hlayer => ?_, hids.free source hmem⟩
    obtain ⟨n, hn, hsame⟩ := List.mem_map.mp (h.layers_subset hids.distinct hlayer)
    obtain ⟨hn, hcomp⟩ := List.mem_filter.mp hn
    obtain rfl := List.inj_on_of_nodup_map hids.distinct hn hmem hsame
    rw [isComputational_eq hd, hquiet] at hcomp
    cases hcomp
  · refine ⟨fun hlayer => dotted_ne (hundotted _ hlayer) rfl, ?_⟩
    exact (dotted_ne (by decide)).symm

/-- A model of a graph with plain ids lists the outside feeds that its graph offers. Those that its
layers consume are among them, and those of ports and of labels too. It lists just what it consumes
if and only if each key that is offered is offered by a connection that is not dropped. -/
theorem compile_lists {seed : Value} {input : Option InputSpec} (hids : g.PlainIds)
    (h : (compile catalog seed g input).1 = .ok m) :
    (∀ key, key ∈ m.externalInputs.map (·.1) ↔ ∃ c, Offers catalog g c key) ∧
      m.consumed ⊆ m.externalInputs.map (·.1) ∧
      m.labelInputs ⊆ m.portInputs ∧ m.portInputs ⊆ m.externalInputs.map (·.1) ∧
      ((∀ key, key ∈ m.externalInputs.map (·.1) ↔ key ∈ m.consumed) ↔
        ∀ c key, Offers catalog g c key → ∃ c', Offers catalog g c' key ∧ ¬Dropped m c' key) := by
  have hcompiled := compile_compiled h
  obtain ⟨remarks, haccount⟩ := compile_accounted hids.distinct h
  obtain ⟨r, log, p, hp⟩ := compile_completed h
  have hlisted := hp.external_iff hids.distinct
  have hconsumed : ∀ key ∈ m.consumed, ∃ c, Offers catalog g c key ∧ ¬Dropped m c key :=
    fun key hkey => hcompiled.offered_of_consumed hids.distinct haccount hkey
  have hsub : m.consumed ⊆ m.externalInputs.map (·.1) := by
    intro key hkey
    obtain ⟨c, hc, -⟩ := hconsumed key hkey
    exact (hlisted key).mpr ⟨c, hc⟩
  obtain ⟨hlabels, hports⟩ := hp.tabled
  refine ⟨hlisted, hsub, hlabels, hports, ?_⟩
  constructor
  · intro hexact c key hc
    exact hconsumed key ((hexact key).mp ((hlisted key).mpr ⟨c, hc⟩))
  · intro hkept key
    refine ⟨fun hkey => ?_, fun hkey => hsub hkey⟩
    obtain ⟨c, hc⟩ := (hlisted key).mp hkey
    obtain ⟨c', hc', hreaches⟩ := hkept c key hc
    obtain ⟨L, hL, -, hfed⟩ :=
      (hc'.fed_or_dropped hcompiled hids.distinct haccount).resolve_right hreaches
    exact mem_consumed.mpr ⟨⟨L, hL, hfed⟩, hc'.key_free hcompiled hids⟩

end Lists

theorem compile_lists_feedback : feedback.PlainIds ∧ ∃ m : Model Float,
    (compile Stock.catalog (.int 0) feedback none).1 = .ok m ∧
      m.externalInputs.map (·.1) = ["data.labels"] ∧ m.consumed = ["data.labels"] ∧
        ∀ c key, Offers Stock.catalog feedback c key →
          ∃ c', Offers Stock.catalog feedback c' key ∧ ¬Dropped m c' key := by
  have hids : feedback.PlainIds := ⟨by decide, by decide, by decide⟩
  have hrun : ((compile Stock.catalog (.int 0) feedback none).1.toOption.map
      fun m : Model Float => (m.externalInputs.map (·.1), m.consumed)) =
      some (["data.labels"], ["data.labels"]) := by
    decide +kernel
  obtain ⟨m, hm, hfacts⟩ := Option.map_eq_some_iff.mp hrun
  obtain ⟨hlisted, hconsumed⟩ := Prod.mk.inj hfacts
  have hok := toOption_eq_some.mp hm
  obtain ⟨-, -, -, -, hexact⟩ := compile_lists hids hok
  exact ⟨hids, m, hok, hlisted, hconsumed, hexact.mp fun key => by rw [hlisted, hconsumed]⟩

/-- A pool over labels, which are no images, and a layer beside it. -/
def unpooled : Graph :=
  let node (id blockType : String) : Node := ⟨id, blockType, [], .null, false, .null, []⟩
  { nodes := [node "data" "DataLoader", node "pool" "MaxPooling2D", node "flat" "Flatten"]
    connections :=
      [⟨.null, "data", .text "labels", "pool", .text "input", .null, .null, []⟩] }

/-- The labels stay listed after the pool is skipped, although no layer consumes them. -/
theorem unpooled_lists_labels : unpooled.PlainIds ∧ ∃ m : Model Float,
    (compile Stock.catalog (.int 0) unpooled none).1 = .ok m ∧
      m.layers.map (fun L => (L.id, L.feeds)) = [("flat", ["__input__"])] ∧
        m.externalInputs.map (·.1) = ["data.labels"] ∧ m.consumed = [] ∧
          m.portInputs = ["data.labels"] ∧ m.labelInputs = ["data.labels"] := by
  have hrun : ((compile Stock.catalog (.int 0) unpooled none).1.toOption.map fun m : Model Float =>
      (m.layers.map fun L => (L.id, L.feeds), m.externalInputs.map (·.1), m.consumed,
        m.portInputs, m.labelInputs)) =
      some ([("flat", ["__input__"])], ["data.labels"], [], ["data.labels"], ["data.labels"]) := by
    decide +kernel
  obtain ⟨m, hm, hfacts⟩ := Option.map_eq_some_iff.mp hrun
  simp only [Prod.mk.injEq] at hfacts
  exact ⟨⟨by decide, by decide, by decide⟩, m, toOption_eq_some.mp hm, hfacts⟩

end Compilation

end BlockNet
