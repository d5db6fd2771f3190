import BlockNet.Proofs.Compilation.Feed

/-! # How layers are made

Every step of a compilation keeps the layers there are and adds at most one, which it makes of a
node, of the layers before and of outside sources. What every step keeps, the finished model has. -/

namespace BlockNet.Compilation

open List

variable {α : Type} [Scalar α]

/-! ## One layer -/

/-- What a layer owes to the layers before it: it is made of a known node, with the settings of the
node, and it is fed from the origins of the connections into the node as far as its kernel takes
them. -/
structure Made (plan : Plan) (earlier : List (Layer α)) (L : Layer α) (n : Node) (k : Kernel)
    (d : BlockDefinition) (fed : List (Origin × TensorShape)) : Prop where
  node : plan.node? L.id = some n
  kind : L.kind = n.blockType
  kernel : Kernel.ofKind? n.blockType = some k
  definition : plan.catalog.get? n.blockType = some d
  params : d.effectiveParams n.params = .ok L.params
  origins : fed.map (·.1) = limited k (orInput ((plan.incoming d n).filterMap
    (origin? plan.catalog plan.node? fun c => (earlier.map (·.id)).contains c.source)))
  gives : ∀ x ∈ fed, x.1.Gives plan.catalog plan.input earlier x.2
  feeds : L.feeds = fed.map (·.1.key)
  shapes : L.inputShapes = fed.map (·.2)
  output : k.outputShape L.params L.inputShapes = .ok L.outputShape
  weights : ∃ g g', (k.build L.params L.inputShapes).run g = (.ok L.weights, g')

/-- A feed from a source outside the model, of a known type that does not become a layer. -/
structure Noted (plan : Plan) (e : Feed) (d : BlockDefinition) (source : Node) (port : Value) :
    Prop where
  node : plan.node? source.id = some source
  definition : plan.catalog.get? source.blockType = some d
  quiet : d.computational = false
  key : e.1 = feedKey d source port
  shape : Supplies plan.catalog d source port e.2

/-- The keys that stand for something so far: layers, the input of the model, and what is noted
about sources outside the model. -/
def Progress.Known (p : Progress α) (key : String) : Prop :=
  key ∈ p.layers.map (·.id) ∨ key = modelInput ∨ key ∈ p.external.map (·.1)

omit [Scalar α] in
theorem Progress.Known.mono {p p' : Progress α} {key : String} (h : p.Known key)
    (hlayers : p.layers.map (·.id) ⊆ p'.layers.map (·.id))
    (hexternal : p.external.map (·.1) ⊆ p'.external.map (·.1)) : p'.Known key :=
  h.imp (fun hkey => hlayers hkey) (Or.imp_right fun hkey => hexternal hkey)

/-- The layers after a node is placed: those before, and perhaps one more that is made of it. What
is noted new about sources outside the model is true of them, and nothing is forgotten. -/
structure Placed (plan : Plan) (p : Progress α) (id : String) (p' : Progress α) : Prop where
  layers : p'.layers = p.layers ∨ ∃ L n k d fed, L.id = id ∧ p'.layers = p.layers ++ [L] ∧
    Made plan p.layers L n k d fed ∧ ∀ key ∈ L.feeds, p'.Known key
  kept : p.external.map (·.1) ⊆ p'.external.map (·.1)
  external : ∀ e ∈ p'.external, e ∈ p.external ∨ ∃ d source port, Noted plan e d source port

omit [Scalar α] in
theorem Progress.ready_eq (p : Progress α) :
    p.ready = fun c => (p.layers.map (·.id)).contains c.source := by
  funext c
  rw [Bool.eq_iff_iff, Progress.ready, Progress.isSome_layer?]
  simp

theorem origin?_eq_outside {catalog : Catalog} {known? : String → Option Node}
    {ready : Connection → Bool} {c : Connection} {d : BlockDefinition} {source : Node}
    {port : Value} (h : origin? catalog known? ready c = some (.outside d source port)) :
    known? c.source = some source ∧ catalog.get? source.blockType = some d ∧
      d.computational = false := by
  rw [origin?] at h
  cases hsource : known? c.source with
  | none =>
      rw [hsource] at h
      cases h
  | some s =>
      simp only [hsource] at h
      cases hready : ready c with
      | true =>
          simp [hready] at h
      | false =>
          simp only [hready, Bool.false_eq_true, if_false] at h
          cases hd : catalog.get? s.blockType with
          | none =>
              rw [hd] at h
              cases h
          | some e =>
              simp only [hd] at h
              cases hcomp : e.computational with
              | true => simp [hcomp] at h
              | false =>
                  simp only [hcomp, Bool.false_eq_true, if_false] at h
                  obtain ⟨_, -, horigin⟩ := Option.map_eq_some_iff.mp h
                  cases horigin
                  exact ⟨rfl, hd, hcomp⟩

theorem mem_putFeed {feeds : List Feed} {key : String} {shape : TensorShape} {e : Feed}
    (h : e ∈ putFeed feeds key shape) : e ∈ feeds ∨ e = (key, shape) := by
  induction feeds with
  | nil => exact .inr (List.mem_singleton.mp h)
  | cons f feeds ih =>
      rw [putFeed] at h
      split at h
      · rcases List.mem_cons.mp h with h | h
        · exact .inr h
        · exact .inl (List.mem_cons_of_mem f h)
      · rcases List.mem_cons.mp h with h | h
        · exact .inl (h ▸ List.mem_cons_self)
        · exact (ih h).imp_left (List.mem_cons_of_mem f)

theorem keys_putFeed (feeds : List Feed) (key : String) (shape : TensorShape) :
    key :: feeds.map (·.1) ⊆ (putFeed feeds key shape).map (·.1) := by
  induction feeds with
  | nil => exact List.Subset.refl _
  | cons f feeds ih =>
      obtain ⟨hkey, hfeeds⟩ := List.cons_subset.mp ih
      rw [putFeed]
      split
      · rename_i hf
        rw [List.map_cons, List.map_cons, eq_of_beq hf]
        exact List.cons_subset.mpr ⟨List.mem_cons_self, List.Subset.refl _⟩
      · rw [List.map_cons, List.map_cons]
        exact List.cons_subset.mpr ⟨List.mem_cons_of_mem _ hkey, List.cons_subset_cons _ hfeeds⟩

/-- Noting feeds keeps what was noted, and every outside feed is noted. -/
theorem keys_foldl_note (fed : List (Origin × TensorShape)) (external : List Feed) :
    external.map (·.1) ⊆ (fed.foldl note external).map (·.1) ∧
      ∀ d source port shape, (Origin.outside d source port, shape) ∈ fed →
        feedKey d source port ∈ (fed.foldl note external).map (·.1) := by
  induction fed generalizing external with
  | nil => exact ⟨List.Subset.refl _, by simp⟩
  | cons x fed ih =>
      obtain ⟨hkept, hnoted⟩ := ih (note external x)
      have hstep : external.map (·.1) ⊆ (note external x).map (·.1) := by
        rcases x with ⟨_ | ⟨d, source, port⟩ | _, shape⟩
        · exact List.Subset.refl _
        · exact (List.cons_subset.mp (keys_putFeed external _ shape)).2
        · exact List.Subset.refl _
      refine ⟨List.Subset.trans hstep hkept, ?_⟩
      intro d source port shape hmem
      rcases List.mem_cons.mp hmem with rfl | hmem
      · exact hkept (keys_putFeed external _ shape List.mem_cons_self)
      · exact hnoted d source port shape hmem

/-- Noting feeds adds nothing but outside feeds among them. -/
theorem mem_foldl_note {fed : List (Origin × TensorShape)} {external : List Feed} {e : Feed}
    (h : e ∈ fed.foldl note external) :
    e ∈ external ∨ ∃ d source port shape, (Origin.outside d source port, shape) ∈ fed ∧
      e = (feedKey d source port, shape) := by
  induction fed generalizing external with
  | nil => exact .inl h
  | cons x fed ih =>
      rcases ih h with h | ⟨d, source, port, shape, hmem, he⟩
      · rcases x with ⟨_ | ⟨d, source, port⟩ | _, shape⟩
        · exact .inl h
        · rcases mem_putFeed h with h | h
          · exact .inl h
          · exact .inr ⟨d, source, port, shape, List.mem_cons_self, h⟩
        · exact .inl h
      · exact .inr ⟨d, source, port, shape, List.mem_cons_of_mem x hmem, he⟩

omit [Scalar α] in
theorem Origin.Gives.supplies {catalog : Catalog} {input : TensorShape} {earlier : List (Layer α)}
    {d : BlockDefinition} {source : Node} {port : Value} {shape : TensorShape}
    (h : (Origin.outside d source port).Gives catalog input earlier shape) :
    Supplies catalog d source port shape := by
  cases h with
  | outside _ _ _ _ hshape => exact hshape

omit [Scalar α] in
theorem Fed.noted {plan : Plan} {p p' : Progress α} {connections : List Connection}
    {ready : Connection → Bool} {fed : List (Origin × TensorShape)}
    (h : Fed plan p p'
      (orInput (connections.filterMap (origin? plan.catalog plan.node? ready))) fed)
    {e : Feed} (he : e ∈ p'.external) :
    e ∈ p.external ∨ ∃ d source port, Noted plan e d source port := by
  rw [h.external] at he
  rcases mem_foldl_note he with he | ⟨d, source, port, shape, hmem, rfl⟩
  · exact .inl he
  · refine .inr ⟨d, source, port, ?_⟩
    have horigin : Origin.outside d source port ∈
        connections.filterMap (origin? plan.catalog plan.node? ready) := by
      have hin := List.mem_map_of_mem (f := (·.1)) hmem
      rw [h.origins, orInput] at hin
      split at hin
      · cases List.mem_singleton.mp hin
      · exact hin
    obtain ⟨c, -, hc⟩ := List.mem_filterMap.mp horigin
    obtain ⟨hsource, hd, hquiet⟩ := origin?_eq_outside hc
    have hid := Plan.node?_id hsource
    exact ⟨by rw [hid]; exact hsource, hd, hquiet, rfl, (h.gives _ hmem).supplies⟩

omit [Scalar α] in
/-- The keys of feeds stand for something. -/
theorem Fed.known {plan : Plan} {p p' : Progress α} {origins : List Origin}
    {fed : List (Origin × TensorShape)} (h : Fed plan p p' origins fed)
    {x : Origin × TensorShape} (hx : x ∈ fed) : p'.Known x.1.key := by
  have hgives := h.gives x hx
  rcases x with ⟨o, shape⟩
  cases hgives with
  | layer K hK => exact .inl (h.layers ▸ List.mem_map_of_mem hK)
  | outside d source port _ _ =>
      refine .inr (.inr ?_)
      rw [h.external]
      exact (keys_foldl_note fed p.external).2 d source port shape hx
  | input => exact .inr (.inl rfl)

theorem construct_eq_ok {k : Kernel} {params : Entries} {shapes : List TensorShape}
    {shape : TensorShape} {weights : List (Weight α)} {g g' : Generator}
    (h : (construct k params shapes).run g = (.ok (shape, weights), g')) :
    k.outputShape params shapes = .ok shape ∧
      (k.build params shapes).run g = (.ok weights, g') := by
  rw [construct, run_bind_eq_ok] at h
  obtain ⟨s, g₁, hshape, hrest⟩ := h
  obtain ⟨hs, rfl⟩ := run_lift_eq_ok.mp hshape
  obtain ⟨ws, g₂, hbuild, hend⟩ := run_bind_eq_ok.mp hrest
  obtain ⟨hresult, rfl⟩ := run_pure_eq_ok.mp hend
  obtain ⟨rfl, rfl⟩ := Prod.mk.inj hresult
  exact ⟨hs, hbuild⟩

omit [Scalar α] in
theorem noteMismatch_eq (p : Progress α) (n : Node) (shapes : List TensorShape) :
    (noteMismatch p n shapes).layers = p.layers ∧
      (noteMismatch p n shapes).external = p.external := by
  rw [noteMismatch]
  split
  · exact ⟨rfl, rfl⟩
  · exact ⟨rfl, rfl⟩

/-- A node is skipped, or it becomes a layer of the shape and the weights that its kernel gives. -/
theorem addLayer_eq_ok {k : Kernel} {p p' : Progress α} {n : Node} {params : Entries}
    {feeds : List Feed} (h : addLayer k p n params feeds = .ok p') :
    p'.external = p.external ∧ (p'.layers = p.layers ∨ ∃ L, p'.layers = p.layers ++ [L] ∧
      L.id = n.id ∧ L.kind = n.blockType ∧ L.params = params ∧ L.feeds = feeds.map (·.1) ∧
      L.inputShapes = feeds.map (·.2) ∧
      k.outputShape params (feeds.map (·.2)) = .ok L.outputShape ∧
      ∃ g g', (k.build params (feeds.map (·.2))).run g = (.ok L.weights, g')) := by
  simp only [addLayer] at h
  rcases hmade : (construct k params (feeds.map (·.2)) : Draws (_ × List (Weight α))).run
    p.generator with
    ⟨fault | ⟨shape, weights⟩, g'⟩
  · simp only [hmade] at h
    split at h
    · obtain rfl := Except.ok.inj h
      exact ⟨rfl, .inl rfl⟩
    · cases h
    · cases ‹Except.error fault = Except.ok _›
  · simp only [hmade] at h
    obtain ⟨hshape, hbuild⟩ := construct_eq_ok hmade
    obtain rfl := Except.ok.inj h
    obtain ⟨hlayers, hexternal⟩ :=
      noteMismatch_eq { p with generator := g' } n (feeds.map (·.2))
    refine ⟨hexternal, .inr ⟨_, by rw [hlayers], rfl, rfl, rfl, rfl, rfl, hshape, ?_⟩⟩
    exact ⟨_, _, hbuild⟩

omit [Scalar α] in
theorem orStop_eq_ok {β : Type} {log : List LogEntry} {r : Outcome β} {b : β} :
    orStop log r = .ok b ↔ r = .ok b := by
  cases r with
  | error fault =>
      constructor
      · intro h
        cases h
      · intro h
        cases h
  | ok a =>
      constructor
      · intro h
        rw [Except.ok.inj h]
      · intro h
        rw [Except.ok.inj h]
        rfl

/-- A node that a layer is made of, if its shapes can be resolved. -/
theorem Fed.placed {plan : Plan} {p p₁ p' : Progress α} {n : Node} {k : Kernel}
    {d : BlockDefinition} {params : Entries} {fed : List (Origin × TensorShape)}
    {warnings : List String} (hnode : plan.node? n.id = some n)
    (hk : Kernel.ofKind? n.blockType = some k) (hd : plan.catalog.get? n.blockType = some d)
    (hparams : d.effectiveParams n.params = .ok params)
    (hfed : Fed plan p p₁
      (orInput ((plan.incoming d n).filterMap (origin? plan.catalog plan.node? p.ready))) fed)
    (h : addLayer k { p₁ with warnings } n params ((limited k fed).map feedOf) = .ok p') :
    Placed plan p n.id p' := by
  obtain ⟨hexternal, hlayers⟩ := addLayer_eq_ok h
  have hexternal : p'.external = p₁.external := hexternal
  have hkept : p.external.map (·.1) ⊆ p'.external.map (·.1) := by
    rw [hexternal, hfed.external]
    exact (keys_foldl_note fed p.external).1
  refine ⟨?_, hkept, fun e he => hfed.noted (hexternal ▸ he)⟩
  rcases hlayers with
    hlayers | ⟨L, hlayers, hid, hkind, hLparams, hfeeds, hshapes, hout, hbuild⟩
  · exact .inl (hlayers.trans hfed.layers)
  · rw [List.map_map] at hfeeds hshapes hout hbuild
    have hadded : p'.layers = p.layers ++ [L] := by
      rw [hlayers]
      exact congrArg (· ++ [L]) hfed.layers
    have hknown : ∀ key ∈ L.feeds, p'.Known key := by
      intro key hkey
      rw [hfeeds] at hkey
      obtain ⟨x, hx, rfl⟩ := List.mem_map.mp hkey
      refine (hfed.known (mem_of_mem_limited hx)).mono ?_ (hexternal ▸ List.Subset.refl _)
      rw [hadded, hfed.layers, List.map_append]
      exact List.subset_append_left _ _
    refine .inr ⟨L, n, k, d, limited k fed, hid, hadded, ?_, hknown⟩
    exact
      { node := by rw [hid]; exact hnode
        kind := hkind
        kernel := hk
        definition := hd
        params := hLparams ▸ hparams
        origins := by rw [← limited_map, hfed.origins, p.ready_eq]
        gives := fun x hx => hfed.gives x (mem_of_mem_limited hx)
        feeds := hfeeds
        shapes := hshapes
        output := by rw [hLparams, hshapes]; exact hout
        weights := by rw [hLparams, hshapes]; exact hbuild }

/-- A node in its turn becomes a layer or is left out. -/
theorem place_placed {plan : Plan} {p p' : Progress α} {id : String}
    (h : place plan p id = .ok p') : Placed plan p id p' := by
  rw [place] at h
  cases hnode : plan.node? id with
  | none =>
      rw [hnode] at h
      obtain rfl := Except.ok.inj h
      exact ⟨.inl rfl, List.Subset.refl _, fun e he => .inl he⟩
  | some n =>
      obtain rfl : n.id = id := Plan.node?_id hnode
      simp only [hnode] at h
      split at h
      · rename_i k d hk hd
        obtain ⟨⟨p₁, feeds⟩, hfeeds, h⟩ := bind_eq_ok.mp h
        obtain ⟨params, hparams, h⟩ := bind_eq_ok.mp h
        rw [orStop_eq_ok] at hparams
        obtain ⟨fed, rfl, hfed⟩ := feedsOf_fed hfeeds
        obtain ⟨warnings, hp₁⟩ := limitFeeds_fst k p₁ n (fed.map feedOf)
        rw [hp₁, limitFeeds_snd, limited_map] at h
        exact hfed.placed hnode hk hd hparams h
      · obtain rfl := Except.ok.inj h
        exact ⟨.inl rfl, List.Subset.refl _, fun e he => .inl he⟩

/-! ## All layers -/

/-- What layers compiled so far owe to the nodes that had their turn. -/
structure Progress.Sound (plan : Plan) (done : List String) (p : Progress α) : Prop where
  order : p.layers.map (·.id) <+ done
  made : ∀ earlier L later, p.layers = earlier ++ L :: later →
    ∃ n k d fed, Made plan earlier L n k d fed
  external : ∀ e ∈ p.external, ∃ d source port, Noted plan e d source port
  known : ∀ L ∈ p.layers, ∀ key ∈ L.feeds, p.Known key

theorem Progress.sound_start (plan : Plan) (g : Generator) (log : List LogEntry)
    (warnings skipped : List String) :
    (Progress.start g log warnings skipped : Progress α).Sound plan [] := by
  refine ⟨List.nil_sublist _, ?_, by simp [Progress.start], by simp [Progress.start]⟩
  intro earlier L later h
  simp [Progress.start] at h

/-- A list with one more member is split before that member or within the list. -/
theorem split_concat {β : Type} {xs earlier later : List β} {x y : β}
    (h : xs ++ [x] = earlier ++ y :: later) :
    (earlier = xs ∧ y = x) ∨ ∃ rest, xs = earlier ++ y :: rest := by
  rcases List.eq_nil_or_concat later with rfl | ⟨rest, z, rfl⟩
  · obtain ⟨rfl, hsame⟩ := List.append_inj' h rfl
    exact .inl ⟨rfl, (List.cons.inj hsame).1.symm⟩
  · rw [List.concat_eq_append, ← List.cons_append, ← List.append_assoc] at h
    exact .inr ⟨rest, (List.append_inj' h rfl).1⟩

theorem Progress.Sound.place {plan : Plan} {done : List String} {p p' : Progress α} {id : String}
    (h : p.Sound plan done) (hp : place plan p id = .ok p') : p'.Sound plan (done ++ [id]) := by
  have hplaced := place_placed hp
  have hexternal : ∀ e ∈ p'.external, ∃ d source port, Noted plan e d source port := by
    intro e he
    exact (hplaced.external e he).elim (h.external e) fun hnoted => hnoted
  have hkept : p.layers.map (·.id) ⊆ p'.layers.map (·.id) →
      ∀ K ∈ p.layers, ∀ key ∈ K.feeds, p'.Known key := by
    intro hsub K hK key hkey
    exact (h.known K hK key hkey).mono hsub hplaced.kept
  rcases hplaced.layers with hlayers | ⟨L, n, k, d, fed, rfl, hlayers, hmade, hfeeds⟩
  · refine ⟨?_, hlayers ▸ h.made, hexternal, ?_⟩
    · rw [hlayers]
      exact h.order.trans (List.sublist_append_left _ _)
    · rw [hlayers] at hkept ⊢
      exact hkept (List.Subset.refl _)
  · refine ⟨?_, ?_, hexternal, ?_⟩
    · rw [hlayers, List.map_append]
      exact h.order.append (List.Sublist.refl _)
    · intro earlier K later hsplit
      rw [hlayers] at hsplit
      rcases split_concat hsplit with ⟨rfl, rfl⟩ | ⟨rest, hbefore⟩
      · exact ⟨n, k, d, fed, hmade⟩
      · exact h.made earlier K rest hbefore
    · rw [hlayers] at hkept ⊢
      rw [List.map_append] at hkept
      rw [List.forall_mem_append, List.forall_mem_singleton]
      exact ⟨hkept (List.subset_append_left _ _), hfeeds⟩

/-- The plan that a finished model was compiled by. -/
def planOf (catalog : Catalog) (g : Graph) (m : Model α) : Plan :=
  ⟨catalog, knownNodes catalog g.nodes, g.connections, m.inputShape⟩

/-- The schedule of the layers of a graph. -/
def scheduleFor (catalog : Catalog) (g : Graph) : Schedule String :=
  scheduleOf (layerNodes catalog (knownNodes catalog g.nodes)) g.connections

/-- A finished model holds what the turns of all nodes came to. They begin with the nodes of unknown
types skipped, and with the warnings about them and about a cycle. -/
structure Completed (catalog : Catalog) (g : Graph) (m : Model α) (r : Generator)
    (log : List LogEntry) (p : Progress α) : Prop where
  turns : (scheduleFor catalog g).order.foldlM (place (planOf catalog g m))
    (Progress.start r log
      (((unknownNodes catalog g.nodes).map fun n =>
        n.labelText ++ ": Unknown block type: " ++ n.blockType) ++
          if (scheduleFor catalog g).cycleDetected
          then ["Cycle detected: layer order is best-effort"] else [])
      ((unknownNodes catalog g.nodes).map (·.id))) = .ok p
  nonempty : p.layers ≠ []
  layers : m.layers = p.layers
  external : m.externalInputs = p.external
  ports : m.portInputs = p.portInputs
  labels : m.labelInputs = p.labelInputs
  warnings : m.warnings = p.warnings
  skipped : m.skippedNodes = p.skipped
  cyclic : m.cycleDetected = (scheduleFor catalog g).cycleDetected

/-- The weights of a finished model are drawn from the stream of the seed. -/
theorem run_drawsFrom {catalog : Catalog} {seed : Value} {g : Graph} {input : Option InputSpec}
    {m : Model α} {log : List LogEntry} (h : run catalog seed g input = .ok (m, log)) :
    ∃ s log p, seed.toInt = .ok s ∧ Completed catalog g m (.seeded s) log p := by
  rw [run] at h
  split at h
  · cases h
  · obtain ⟨dataset, -, h⟩ := bind_eq_ok.mp h
    obtain ⟨shape, -, h⟩ := bind_eq_ok.mp h
    obtain ⟨s, hs, h⟩ := bind_eq_ok.mp h
    obtain ⟨p, hturns, h⟩ := bind_eq_ok.mp h
    split at h
    · cases h
    · rename_i hlayers
      obtain ⟨rfl, -⟩ := Prod.mk.inj (Except.ok.inj h)
      exact ⟨s, _, p, orStop_eq_ok.mp hs, hturns, by simpa using hlayers, rfl, rfl, rfl, rfl, rfl,
        rfl, rfl⟩

theorem compile_drawsFrom {catalog : Catalog} {seed : Value} {g : Graph} {input : Option InputSpec}
    {m : Model α} (h : (compile catalog seed g input).1 = .ok m) :
    ∃ s log p, seed.toInt = .ok s ∧ Completed catalog g m (.seeded s) log p := by
  rw [compile] at h
  split at h
  · rename_i hrun
    obtain rfl := Except.ok.inj h
    exact run_drawsFrom hrun
  · cases h

theorem compile_completed {catalog : Catalog} {seed : Value} {g : Graph} {input : Option InputSpec}
    {m : Model α} (h : (compile catalog seed g input).1 = .ok m) :
    ∃ r log p, Completed catalog g m r log p := by
  obtain ⟨s, log, p, -, hp⟩ := compile_drawsFrom h
  exact ⟨.seeded s, log, p, hp⟩

/-- What a finished model owes to its graph. -/
structure Compiled (catalog : Catalog) (g : Graph) (m : Model α) : Prop where
  nonempty : m.layers ≠ []
  order : m.layers.map (·.id) <+ (scheduleFor catalog g).order
  made : ∀ earlier L later, m.layers = earlier ++ L :: later →
    ∃ n k d fed, Made (planOf catalog g m) earlier L n k d fed
  external : ∀ e ∈ m.externalInputs, ∃ d source port, Noted (planOf catalog g m) e d source port
  known : ∀ L ∈ m.layers, ∀ key ∈ L.feeds, key ∈ m.layers.map (·.id) ∨ key = modelInput ∨
    key ∈ m.externalInputs.map (·.1)
  cyclic : m.cycleDetected = (scheduleFor catalog g).cycleDetected

/-- Compilation gives no model but one that is made of its graph. -/
theorem compile_compiled {catalog : Catalog} {seed : Value} {g : Graph} {input : Option InputSpec}
    {m : Model α} (h : (compile catalog seed g input).1 = .ok m) : Compiled catalog g m := by
  obtain ⟨r, log, p, hp⟩ := compile_completed h
  have hsound := foldlM_induction (P := Progress.Sound (planOf catalog g m))
    (fun done id a b ha hb => ha.place hb) (Progress.sound_start _ _ _ _ _) hp.turns
  exact
    { nonempty := hp.layers ▸ hp.nonempty
      order := hp.layers ▸ hsound.order
      made := hp.layers ▸ hsound.made
      external := hp.external ▸ hsound.external
      known := by rw [hp.layers, hp.external]; exact hsound.known
      cyclic := hp.cyclic }

end BlockNet.Compilation
