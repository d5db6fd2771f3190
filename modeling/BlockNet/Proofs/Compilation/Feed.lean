import BlockNet.Model.Compilation
import BlockNet.Proofs.Outcome

/-! # What feeds a layer

Every feed has an origin: a layer, a port of a source outside the model, or the input of the model.
Gathering feeds adds those of the connections that have an origin and changes nothing else but the
notes on outside sources. -/

namespace BlockNet.Compilation

open List

variable {α : Type}

/-- Where a feed stems from. -/
inductive Origin where
  | layer (id : String)
  | outside (d : BlockDefinition) (source : Node) (port : Value)
  | input

/-- The key under which an origin is fed. -/
def Origin.key : Origin → String
  | .layer id => id
  | .outside d source port => feedKey d source port
  | .input => modelInput

/-- The shape that a source outside the model gives on a port: that of the port, but of a data
source the sample or label shape of its dataset. -/
inductive Supplies (catalog : Catalog) (d : BlockDefinition) (source : Node) (port : Value) :
    TensorShape → Prop where
  | template (output : Port) (hport : d.outputPort? port = some output)
      (hkind : source.blockType ≠ "DataLoader") : Supplies catalog d source port output.shape
  | samples (params : Entries) (name : Value) (shape : TensorShape)
      (hport : (d.outputPort? port).isSome) (hkind : source.blockType = "DataLoader")
      (hparams : source.effectiveParams catalog = .ok params)
      (hname : params.require "dataset" = .ok name) (hdata : port.sameKey "data" = true)
      (hshape : (DatasetSpec.find name).1.inputShape = .ok shape) :
      Supplies catalog d source port shape
  | labels (hport : (d.outputPort? port).isSome) (hkind : source.blockType = "DataLoader")
      (hdata : port.sameKey "data" = false) :
      Supplies catalog d source port DatasetSpec.labelShape

/-- The shape that comes with a feed, told from the layers before. -/
inductive Origin.Gives (catalog : Catalog) (input : TensorShape) (earlier : List (Layer α)) :
    Origin → TensorShape → Prop where
  | layer (K : Layer α) (hK : K ∈ earlier) : Gives catalog input earlier (.layer K.id) K.outputShape
  | outside (d : BlockDefinition) (source : Node) (port : Value) (shape : TensorShape)
      (hshape : Supplies catalog d source port shape) :
      Gives catalog input earlier (.outside d source port) shape
  | input : Gives catalog input earlier .input input

/-- The origin that a connection stands for, if it stands for any: a known source that is ready as
a layer, or else a source outside the model that has the port. -/
def origin? (catalog : Catalog) (known? : String → Option Node) (ready : Connection → Bool)
    (c : Connection) : Option Origin :=
  match known? c.source with
  | none => none
  | some source =>
      if ready c then some (.layer c.source)
      else
        match catalog.get? source.blockType with
        | none => none
        | some d =>
            if d.computational then none
            else (d.outputPort? c.sourcePort).map fun _ => .outside d source c.sourcePort

/-- The input of the model where nothing else feeds. -/
def orInput (origins : List Origin) : List Origin :=
  if origins.isEmpty then [.input] else origins

/-- As many members as a kernel takes inputs. -/
def limited {β : Type} (k : Kernel) (xs : List β) : List β :=
  match k.maxInputs? with
  | none => xs
  | some limit => xs.take limit

theorem Plan.node?_id {plan : Plan} {id : String} {n : Node} (h : plan.node? id = some n) :
    n.id = id := by
  simpa using List.find?_some h

theorem mem_incoming {plan : Plan} {d : BlockDefinition} {n : Node} {c : Connection} :
    c ∈ plan.incoming d n ↔
      c ∈ plan.connections ∧ c.target = n.id ∧ (plan.node? c.source).isSome := by
  rw [Plan.incoming, List.mem_mergeSort, List.mem_filter, Bool.and_eq_true, beq_iff_eq]

theorem Progress.layer?_eq_some {p : Progress α} {id : String} {L : Layer α}
    (h : p.layer? id = some L) : L ∈ p.layers ∧ L.id = id :=
  ⟨List.mem_of_find?_eq_some h, by simpa using List.find?_some h⟩

theorem Progress.isSome_layer? {p : Progress α} {id : String} :
    (p.layer? id).isSome = true ↔ id ∈ p.layers.map (·.id) := by
  simp [Progress.layer?, List.find?_isSome]

/-! ## One connection -/

/-- The outside feeds after an origin with its shape is noted. -/
def note (external : List Feed) (x : Origin × TensorShape) : List Feed :=
  match x.1 with
  | .outside d source port => putFeed external (feedKey d source port) x.2
  | _ => external

/-- A feed of an origin. -/
def feedOf (x : Origin × TensorShape) : Feed := (x.1.key, x.2)

/-- What feeds of some origins do to a compilation: the layers and the stream stay, each shape is
what its origin gives, and outside origins are noted. -/
structure Fed (plan : Plan) (p p' : Progress α) (origins : List Origin)
    (fed : List (Origin × TensorShape)) : Prop where
  layers : p'.layers = p.layers
  generator : p'.generator = p.generator
  origins : fed.map (·.1) = origins
  gives : ∀ x ∈ fed, x.1.Gives plan.catalog plan.input p.layers x.2
  external : p'.external = fed.foldl note p.external

/-- A connection has its origin in what is compiled so far. -/
def Progress.ready (p : Progress α) (c : Connection) : Bool := (p.layer? c.source).isSome

theorem externalShape_eq_ok {plan : Plan} {source : Node} {port : Value} {d : BlockDefinition}
    {shape? : Option TensorShape} (hd : plan.catalog.get? source.blockType = some d)
    (h : (plan.externalShape source port).1 = .ok shape?) :
    (d.outputPort? port = none ∧ shape? = none) ∨
      ∃ shape, (d.outputPort? port).isSome ∧ shape? = some shape ∧
        Supplies plan.catalog d source port shape := by
  simp only [Plan.externalShape, hd, Option.bind_some] at h
  cases hport : d.outputPort? port with
  | none =>
      rw [hport] at h
      exact .inl ⟨rfl, (Except.ok.inj h).symm⟩
  | some output =>
      rw [hport] at h
      have hsome : (d.outputPort? port).isSome := by simp [hport]
      refine .inr ?_
      by_cases hkind : source.blockType = "DataLoader"
      · simp only [hkind, bne_self_eq_false, Bool.false_eq_true, if_false] at h
        split at h
        · cases h
        · rename_i name hname
          obtain ⟨params, hparams, hname⟩ := bind_eq_ok.mp hname
          cases hdata : port.sameKey "data" with
          | true =>
              simp only [hdata, if_true] at h
              obtain ⟨shape, hshape, rfl⟩ := map_eq_ok.mp h
              exact ⟨shape, rfl, rfl,
                .samples params name shape hsome hkind hparams hname hdata hshape⟩
          | false =>
              simp only [hdata, Bool.false_eq_true, if_false] at h
              exact ⟨_, rfl, (Except.ok.inj h).symm, .labels hsome hkind hdata⟩
      · have hne : (source.blockType != "DataLoader") = true := by simpa using hkind
        simp only [hne, if_true] at h
        exact ⟨_, rfl, (Except.ok.inj h).symm, .template output hport hkind⟩

theorem Fed.nothing (plan : Plan) (p : Progress α) (log : List LogEntry) :
    Fed plan p { p with log } [] [] :=
  ⟨rfl, rfl, rfl, by simp, rfl⟩

theorem Fed.single_layer (plan : Plan) {p : Progress α} {L : Layer α} (hL : L ∈ p.layers) :
    Fed plan p p [.layer L.id] [(.layer L.id, L.outputShape)] := by
  refine ⟨rfl, rfl, rfl, ?_, rfl⟩
  intro x hx
  rw [List.mem_singleton.mp hx]
  exact .layer L hL

theorem Fed.single_outside {plan : Plan} {p : Progress α} {d : BlockDefinition} {source : Node}
    {port : Value} {shape : TensorShape} (log : List LogEntry)
    (hshape : Supplies plan.catalog d source port shape) :
    Fed plan p
      (({ p with log } : Progress α).addExternal source port (feedKey d source port) shape)
      [.outside d source port] [(.outside d source port, shape)] := by
  refine ⟨rfl, rfl, rfl, ?_, rfl⟩
  intro x hx
  rw [List.mem_singleton.mp hx]
  exact .outside d source port shape hshape

/-- A connection from a source that has not become a layer feeds what a port outside gives. -/
theorem addFeed_fed_outside {plan : Plan} {p p' : Progress α} {feeds feeds' : List Feed}
    {c : Connection} {source : Node} (hsource : plan.node? c.source = some source)
    (hlayer : p.layer? c.source = none) (h : addFeed plan (p, feeds) c = .ok (p', feeds')) :
    ∃ fed, feeds' = feeds ++ fed.map feedOf ∧
      Fed plan p p' (origin? plan.catalog plan.node? p.ready c).toList fed := by
  have hid : source.id = c.source := Plan.node?_id hsource
  have hready : p.ready c = false := by simp [Progress.ready, hlayer]
  simp only [addFeed, hsource, hid, hlayer] at h
  simp only [origin?, hsource, hready, Bool.false_eq_true, if_false]
  cases hd : plan.catalog.get? source.blockType with
  | none =>
      simp only [hd, Catalog.isComputational, Bool.false_eq_true, if_false] at h
      refine ⟨[], ?_⟩
      split at h
      · cases h
      · cases ‹none = some _›
      · obtain ⟨rfl, rfl⟩ := Prod.mk.inj (Except.ok.inj h)
        exact ⟨by simp, Fed.nothing plan p _⟩
  | some d =>
      simp only [hd, Catalog.isComputational] at h
      cases hcomp : d.computational with
      | true =>
          simp only [hcomp, if_true] at h ⊢
          obtain ⟨rfl, rfl⟩ := Prod.mk.inj (Except.ok.inj h)
          exact ⟨[], by simp, Fed.nothing plan p p.log⟩
      | false =>
          simp only [hcomp, Bool.false_eq_true, if_false] at h ⊢
          cases hshape : (plan.externalShape source c.sourcePort).1 with
          | error fault =>
              simp only [hshape] at h
              cases h
          | ok shape? =>
              simp only [hshape] at h
              rcases externalShape_eq_ok hd hshape with ⟨hport, rfl⟩ |
                ⟨shape, hport, rfl, hgives⟩
              · obtain ⟨rfl, rfl⟩ := Prod.mk.inj (Except.ok.inj h)
                exact ⟨[], by simp, by simpa [hport] using Fed.nothing plan p _⟩
              · obtain ⟨rfl, rfl⟩ := Prod.mk.inj (Except.ok.inj h)
                obtain ⟨output, hport⟩ := Option.isSome_iff_exists.mp hport
                refine ⟨[(.outside d source c.sourcePort, shape)], rfl, ?_⟩
                simpa [hport] using Fed.single_outside _ hgives

/-- One connection feeds what its origin gives, or nothing if it has none. -/
theorem addFeed_fed {plan : Plan} {p p' : Progress α} {feeds feeds' : List Feed} {c : Connection}
    (h : addFeed plan (p, feeds) c = .ok (p', feeds')) :
    ∃ fed, feeds' = feeds ++ fed.map feedOf ∧
      Fed plan p p' (origin? plan.catalog plan.node? p.ready c).toList fed := by
  cases hsource : plan.node? c.source with
  | none =>
      simp only [addFeed, hsource] at h
      obtain ⟨rfl, rfl⟩ := Prod.mk.inj (Except.ok.inj h)
      refine ⟨[], by simp, ?_⟩
      simpa [origin?, hsource] using Fed.nothing plan p p.log
  | some source =>
      cases hlayer : p.layer? c.source with
      | none => exact addFeed_fed_outside hsource hlayer h
      | some L =>
          have hid : source.id = c.source := Plan.node?_id hsource
          simp only [addFeed, hsource, hid, hlayer] at h
          obtain ⟨rfl, rfl⟩ := Prod.mk.inj (Except.ok.inj h)
          obtain ⟨hmem, hL⟩ := Progress.layer?_eq_some hlayer
          refine ⟨[(.layer c.source, L.outputShape)], by simp [feedOf, Origin.key], ?_⟩
          simpa [origin?, hsource, Progress.ready, hlayer, hL] using
            Fed.single_layer plan hmem

/-! ## All connections -/

theorem Progress.ready_congr {p p' : Progress α} (h : p'.layers = p.layers) :
    p'.ready = p.ready := by
  funext c
  simp only [Progress.ready, Progress.layer?, h]

theorem Fed.append {plan : Plan} {p p₁ p₂ : Progress α} {origins₁ origins₂ : List Origin}
    {fed₁ fed₂ : List (Origin × TensorShape)} (h₁ : Fed plan p p₁ origins₁ fed₁)
    (h₂ : Fed plan p₁ p₂ origins₂ fed₂) :
    Fed plan p p₂ (origins₁ ++ origins₂) (fed₁ ++ fed₂) := by
  refine ⟨h₂.layers.trans h₁.layers, h₂.generator.trans h₁.generator, ?_, ?_, ?_⟩
  · rw [List.map_append, h₁.origins, h₂.origins]
  · intro x hx
    rcases List.mem_append.mp hx with hx | hx
    · exact h₁.gives x hx
    · exact h₁.layers ▸ h₂.gives x hx
  · rw [List.foldl_append, ← h₁.external, h₂.external]

theorem foldlM_addFeed_fed {plan : Plan} {connections : List Connection} {p p' : Progress α}
    {feeds feeds' : List Feed}
    (h : connections.foldlM (addFeed plan) (p, feeds) = .ok (p', feeds')) :
    ∃ fed, feeds' = feeds ++ fed.map feedOf ∧
      Fed plan p p' (connections.filterMap (origin? plan.catalog plan.node? p.ready)) fed := by
  induction connections generalizing p feeds with
  | nil =>
      obtain ⟨rfl, rfl⟩ := Prod.mk.inj (Except.ok.inj h)
      exact ⟨[], by simp, Fed.nothing plan p p.log⟩
  | cons c connections ih =>
      rw [List.foldlM_cons, bind_eq_ok] at h
      obtain ⟨⟨p₁, feeds₁⟩, hc, hrest⟩ := h
      obtain ⟨fed₁, rfl, hfed₁⟩ := addFeed_fed hc
      obtain ⟨fed₂, rfl, hfed₂⟩ := ih hrest
      rw [Progress.ready_congr hfed₁.layers] at hfed₂
      refine ⟨fed₁ ++ fed₂, by simp, ?_⟩
      have hall := hfed₁.append hfed₂
      cases ho : origin? plan.catalog plan.node? p.ready c <;>
        simpa [List.filterMap_cons, ho] using hall

theorem feedsOf_fed {plan : Plan} {p p' : Progress α} {d : BlockDefinition} {n : Node}
    {feeds : List Feed} (h : feedsOf plan p d n = .ok (p', feeds)) :
    ∃ fed, feeds = fed.map feedOf ∧ Fed plan p p'
      (orInput ((plan.incoming d n).filterMap (origin? plan.catalog plan.node? p.ready))) fed := by
  rw [feedsOf, bind_eq_ok] at h
  obtain ⟨⟨p₁, feeds₁⟩, hfold, hresult⟩ := h
  obtain ⟨rfl, rfl⟩ := Prod.mk.inj (Except.ok.inj hresult)
  obtain ⟨fed, hfeeds, hfed⟩ := foldlM_addFeed_fed hfold
  rw [List.nil_append] at hfeeds
  subst hfeeds
  cases fed with
  | nil =>
      have hnone := hfed.origins
      refine ⟨[(.input, plan.input)], rfl, hfed.layers, hfed.generator, ?_, ?_, hfed.external⟩
      · simp [← hnone, orInput]
      · intro x hx
        rw [List.mem_singleton.mp hx]
        exact .input
  | cons x fed =>
      refine ⟨x :: fed, rfl, ?_⟩
      have hsome := hfed.origins
      simpa [orInput, ← hsome] using hfed

theorem limitFeeds_snd (k : Kernel) (p : Progress α) (n : Node) (feeds : List Feed) :
    (limitFeeds k p n feeds).2 = limited k feeds := by
  cases hk : k.maxInputs? with
  | none => simp [limitFeeds, limited, hk]
  | some limit =>
      by_cases hlen : feeds.length ≤ limit
      · simp [limitFeeds, limited, hk, hlen, List.take_of_length_le hlen]
      · simp [limitFeeds, limited, hk, hlen]

theorem limitFeeds_fst (k : Kernel) (p : Progress α) (n : Node) (feeds : List Feed) :
    ∃ warnings, (limitFeeds k p n feeds).1 = { p with warnings } := by
  rw [limitFeeds]
  split
  · exact ⟨p.warnings, rfl⟩
  · split
    · exact ⟨p.warnings, rfl⟩
    · exact ⟨_, rfl⟩

theorem limited_map {β γ : Type} (k : Kernel) (f : β → γ) (xs : List β) :
    limited k (xs.map f) = (limited k xs).map f := by
  rw [limited, limited]
  split
  · rfl
  · rw [List.map_take]

theorem mem_of_mem_limited {β : Type} {k : Kernel} {xs : List β} {x : β}
    (h : x ∈ limited k xs) : x ∈ xs := by
  rw [limited] at h
  split at h
  · exact h
  · exact List.mem_of_mem_take h

theorem limited_ne_nil {β : Type} (k : Kernel) {xs : List β} (h : xs ≠ []) : limited k xs ≠ [] := by
  cases xs with
  | nil => exact absurd rfl h
  | cons x xs => cases k <;> exact List.cons_ne_nil _ _

theorem orInput_ne_nil (origins : List Origin) : orInput origins ≠ [] := by
  cases origins with
  | nil => exact List.cons_ne_nil _ _
  | cons o origins => exact List.cons_ne_nil _ _

end BlockNet.Compilation
