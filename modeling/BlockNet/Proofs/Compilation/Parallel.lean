import BlockNet.Proofs.Compilation.Layers
import BlockNet.Proofs.Layer.Alike

/-! # Two compilations of one node

Where the same node is placed in two compilations, and the sources of its connections have become
layers of the same shapes in both, the outcome is the same: a fault, a skipped node, or a layer that
differs in the values of its weights at most. -/

namespace BlockNet

variable {α : Type}

/-- A node without the mark of a source. -/
def Node.unmarked (n : Node) : Node := { n with isSource := false }

/-- Nodes that differ in the mark at most. -/
theorem Node.exists_mark {n n' : Node} (h : n'.unmarked = n.unmarked) :
    ∃ mark, n' = { n with isSource := mark } := by
  obtain ⟨id, blockType, params, label, mark, position, extra⟩ := n'
  exact ⟨mark, by cases n; simp_all [Node.unmarked]⟩

namespace Compilation

theorem isEmpty_congr {β γ : Type} {xs : List β} {ys : List γ} (h : xs.length = ys.length) :
    xs.isEmpty = ys.isEmpty := by
  cases xs <;> cases ys <;> simp_all

/-! ## What a compilation has come to -/

/-- What is settled in a compilation: the layers but for the values of their weights, the skipped
nodes, and what is noted about sources outside the model. -/
structure Ledger where
  forms : List LayerForm
  skipped : List String
  external : List Feed

/-- What is settled so far. -/
def Progress.ledger (p : Progress α) : Ledger := ⟨p.layers.map Layer.form, p.skipped, p.external⟩

/-- What the turn of a node comes to: a layer if it is not skipped, and noted feeds. -/
structure Turn where
  form : Option LayerForm
  noted : List Feed

/-- The feeds with more feeds stored one after the other. -/
def putFeeds (external noted : List Feed) : List Feed :=
  noted.foldl (fun feeds e => putFeed feeds e.1 e.2) external

/-- What is settled after the turn of a node. -/
def Ledger.enter (l : Ledger) (id : String) (t : Turn) : Ledger where
  forms := l.forms ++ t.form.toList
  skipped := if t.form.isNone then l.skipped ++ [id] else l.skipped
  external := putFeeds l.external t.noted

/-- The shape of the layer that a node has become. -/
def Ledger.shape? (l : Ledger) (id : String) : Option TensorShape :=
  (l.forms.find? (·.id == id)).map (·.outputShape)

theorem Progress.shape?_ledger (p : Progress α) (id : String) :
    p.ledger.shape? id = (p.layer? id).map (·.outputShape) := by
  rw [Ledger.shape?, ledger, List.find?_map, Option.map_map]
  rfl

/-- A turn of a node in a plan: the layer has the id of the node, and what is noted is true of
sources outside the model. -/
structure Turn.Of (plan : Plan) (id : String) (t : Turn) : Prop where
  id : ∀ F ∈ t.form, F.id = id
  noted : ∀ e ∈ t.noted, ∃ d source port, Noted plan e d source port

/-! ## Plans alike -/

/-- Two plans of the same nodes, but for their marks, and of the same connections into each. -/
structure Plan.Like (plan plan' : Plan) : Prop where
  catalog : plan'.catalog = plan.catalog
  input : plan'.input = plan.input
  node : ∀ id, (plan'.node? id).map Node.unmarked = (plan.node? id).map Node.unmarked
  incoming : ∀ d n, plan'.incoming d n = plan.incoming d n

/-- What may go wrong is not compared. -/
abbrev anyFault {ε ε' : Type} : ε → ε' → Prop := fun _ _ => True

variable {plan plan' : Plan} {p q : Progress α}

theorem Plan.Like.node?_eq_some (h : plan.Like plan') {id : String} {n : Node}
    (hn : plan.node? id = some n) : ∃ mark, plan'.node? id = some { n with isSource := mark } := by
  have hnode := h.node id
  rw [hn] at hnode
  obtain ⟨n', hn', hsame⟩ := Option.map_eq_some_iff.mp hnode
  obtain ⟨mark, rfl⟩ := Node.exists_mark hsame
  exact ⟨mark, hn'⟩

theorem Plan.Like.node?_eq_none (h : plan.Like plan') {id : String} (hn : plan.node? id = none) :
    plan'.node? id = none := by
  have hnode := h.node id
  rw [hn] at hnode
  exact Option.map_eq_none_iff.mp hnode

theorem Plan.Like.externalShape (h : plan.Like plan') (n : Node) (mark : Bool) (port : Value) :
    plan'.externalShape { n with isSource := mark } port = plan.externalShape n port := by
  simp only [Plan.externalShape, Node.effectiveParams, h.catalog]

/-! ## Feeds -/

/-- A compilation goes on by noting feeds. -/
structure Notes (p : Progress α) (noted : List Feed) (p' : Progress α) : Prop where
  layers : p'.layers = p.layers
  skipped : p'.skipped = p.skipped
  external : p'.external = putFeeds p.external noted

/-- Two steps within the placing of a node, with the same feeds so far. -/
structure Beside (plan : Plan) (p q : Progress α) (x y : Progress α × List Feed) : Prop where
  feeds : x.2 = y.2
  noted : ∃ noted, (∀ e ∈ noted, ∃ d source port, Noted plan e d source port) ∧
    Notes p noted x.1 ∧ Notes q noted y.1

theorem Notes.refl (p : Progress α) : Notes p [] p := ⟨rfl, rfl, rfl⟩

theorem Notes.log {noted : List Feed} {p' : Progress α} (h : Notes p noted p')
    (log : List LogEntry) : Notes p noted { p' with log } :=
  ⟨h.layers, h.skipped, h.external⟩

theorem Notes.addExternal {noted : List Feed} {p' : Progress α} (h : Notes p noted p')
    (source : Node) (port : Value) (key : String) (shape : TensorShape) :
    Notes p (noted ++ [(key, shape)]) (p'.addExternal source port key shape) := by
  refine ⟨h.layers, h.skipped, ?_⟩
  rw [putFeeds, List.foldl_append]
  exact congrArg (fun external => putFeed external key shape) h.external

theorem Notes.layer? {noted : List Feed} {p' : Progress α} (h : Notes p noted p') (id : String) :
    p'.layer? id = p.layer? id := by
  rw [Progress.layer?, h.layers, Progress.layer?]

theorem noted_of_externalShape {n : Node} {d : BlockDefinition} {port : Value}
    {shape : TensorShape} (hn : plan.node? n.id = some n)
    (hd : plan.catalog.get? n.blockType = some d)
    (hquiet : ¬plan.catalog.isComputational n.blockType = true)
    (h : (plan.externalShape n port).1 = .ok (some shape)) :
    Noted plan (feedKey d n port, shape) d n port := by
  rcases externalShape_eq_ok hd h with ⟨-, hnone⟩ | ⟨s, -, hsome, hgives⟩
  · cases hnone
  · obtain rfl := Option.some.inj hsome
    refine ⟨hn, hd, ?_, rfl, hgives⟩
    simpa [Catalog.isComputational, hd] using hquiet

/-- A connection feeds the same in both. -/
theorem addFeed_twin (hplan : plan.Like plan') {c : Connection}
    (hc : p.ledger.shape? c.source = q.ledger.shape? c.source) {x y : Progress α × List Feed}
    (h : Beside plan p q x y) :
    Twin anyFault (Beside plan p q) (addFeed plan x c) (addFeed plan' y c) := by
  obtain ⟨x, feeds⟩ := x
  obtain ⟨y, feeds'⟩ := y
  obtain ⟨rfl, noted, hnoted, hx, hy⟩ := h
  rw [Progress.shape?_ledger, Progress.shape?_ledger] at hc
  simp only [addFeed]
  cases hn : plan.node? c.source with
  | none =>
      rw [hplan.node?_eq_none hn]
      exact .ok ⟨rfl, noted, hnoted, hx, hy⟩
  | some n =>
      obtain ⟨mark, hn'⟩ := hplan.node?_eq_some hn
      have hid := Plan.node?_id hn
      rw [hn']
      rw [← hid] at hc
      simp only [hplan.externalShape, hplan.catalog, hx.layer?, hy.layer?]
      cases hp : p.layer? n.id with
      | some L =>
          rw [hp] at hc
          obtain ⟨L', hq, hshape⟩ := Option.map_eq_some_iff.mp hc.symm
          rw [hq]
          simp only
          rw [hshape]
          exact .ok ⟨rfl, noted, hnoted, hx, hy⟩
      | none =>
          rw [hp] at hc
          have hq : q.layer? n.id = none := Option.map_eq_none_iff.mp hc.symm
          have hnode : plan.node? n.id = some n := by rw [hid]; exact hn
          rw [hq]
          by_cases hquiet : plan.catalog.isComputational n.blockType = true
          · simp only [hquiet, if_true]
            exact .ok ⟨rfl, noted, hnoted, hx, hy⟩
          · simp only [hquiet]
            rcases hshape : plan.externalShape n c.sourcePort with ⟨fault | _ | shape, log⟩
            · exact .error trivial
            · cases hd : plan.catalog.get? n.blockType <;>
                exact .ok ⟨rfl, noted, hnoted, hx.log _, hy.log _⟩
            · cases hd : plan.catalog.get? n.blockType with
              | none => exact .ok ⟨rfl, noted, hnoted, hx.log _, hy.log _⟩
              | some d =>
                  have hnew := noted_of_externalShape hnode hd hquiet (congrArg (·.1) hshape)
                  refine .ok ⟨rfl, noted ++ [(feedKey d n c.sourcePort, shape)], ?_,
                    (hx.log _).addExternal _ _ _ _, (hy.log _).addExternal _ _ _ _⟩
                  rw [List.forall_mem_append, List.forall_mem_singleton]
                  exact ⟨hnoted, d, n, c.sourcePort, hnew⟩

theorem feedsOf_twin (hplan : plan.Like plan') {d : BlockDefinition} {n : Node} (mark : Bool)
    (hc : ∀ c ∈ plan.incoming d n, p.ledger.shape? c.source = q.ledger.shape? c.source) :
    Twin anyFault (Beside plan p q) (feedsOf plan p d n)
      (feedsOf plan' q d { n with isSource := mark }) := by
  have hincoming : plan'.incoming d { n with isSource := mark } = plan.incoming d n :=
    hplan.incoming d n
  have hstart : Beside plan p q (p, []) (q, []) := ⟨rfl, [], by simp, .refl p, .refl q⟩
  rw [feedsOf, feedsOf, hincoming]
  refine (Twin.foldlM (fun c hmem x y => addFeed_twin hplan (hc c hmem)) hstart).bind
    fun x y h => .ok ⟨?_, h.noted⟩
  dsimp only
  rw [h.feeds, hplan.input]

/-! ## One node -/

/-- Two compilations go on by the same turn. -/
def SameTurn (plan : Plan) (p q : Progress α) (id : String) (p' q' : Progress α) : Prop :=
  ∃ t : Turn, t.Of plan id ∧ p'.ledger = p.ledger.enter id t ∧ q'.ledger = q.ledger.enter id t

theorem Notes.ledger_skip {noted : List Feed} {p' : Progress α} (h : Notes p noted p') {n : Node}
    (warning : String) (entry : LogEntry) (g : Generator) :
    (({ p' with generator := g } : Progress α).skip n warning entry).ledger =
      p.ledger.enter n.id ⟨none, noted⟩ := by
  simp [Progress.skip, Progress.ledger, Ledger.enter, h.layers, h.skipped, h.external]

theorem ledger_noteMismatch (p : Progress α) (n : Node) (shapes : List TensorShape) :
    (noteMismatch p n shapes).ledger = p.ledger := by
  rw [noteMismatch]
  split <;> rfl

theorem Notes.ledger_made {noted : List Feed} {p' p₂ : Progress α} (h : Notes p noted p')
    (hsame : p₂.ledger = p'.ledger) (id : String) (L : Layer α) :
    ({ p₂ with layers := p₂.layers ++ [L] } : Progress α).ledger =
      p.ledger.enter id ⟨some L.form, noted⟩ := by
  simp only [Progress.ledger, Ledger.mk.injEq] at hsame
  simp [Progress.ledger, Ledger.enter, hsame, h.layers, h.skipped, h.external]

variable [Scalar α]

theorem construct_akin (k : Kernel) (params : Entries) (shapes : List TensorShape) :
    Alike (fun x y => x.1 = y.1 ∧ AkinWeights x.2 y.2)
      (construct k params shapes : Draws (TensorShape × List (Weight α)))
      (construct k params shapes) :=
  Alike.lift_bind fun _ => (k.build_akin params shapes).bind fun _ _ h => .pure ⟨rfl, h⟩

theorem addLayer_twin (k : Kernel) {p₁ q₁ : Progress α} (n : Node) (mark : Bool)
    (params : Entries) (feeds : List Feed) {noted : List Feed}
    (hnoted : ∀ e ∈ noted, ∃ d source port, Noted plan e d source port)
    (hp : Notes p noted p₁) (hq : Notes q noted q₁) :
    Twin anyFault (SameTurn plan p q n.id) (addLayer k p₁ n params feeds)
      (addLayer k q₁ { n with isSource := mark } params feeds) := by
  have hsame := construct_akin (α := α) k params (feeds.map (·.2)) p₁.generator q₁.generator
  rcases hmade : (construct k params (feeds.map (·.2)) : Draws (_ × List (Weight α))).run
    p₁.generator with ⟨made, g⟩
  rcases hmade' : (construct k params (feeds.map (·.2)) : Draws (_ × List (Weight α))).run
    q₁.generator with ⟨made', g'⟩
  rw [hmade, hmade'] at hsame
  simp only [addLayer, hmade, hmade']
  cases hsame with
  | @error fault _ hfault =>
      obtain rfl := hfault
      cases fault with
      | unresolvedShape kind reason =>
          exact .ok ⟨⟨none, noted⟩, ⟨by simp, hnoted⟩, hp.ledger_skip _ _ g,
            hq.ledger_skip _ _ g'⟩
      | _ => exact .error trivial
  | @ok made made' h =>
      obtain ⟨shape, weights⟩ := made
      obtain ⟨shape', weights'⟩ := made'
      obtain ⟨rfl, hweights⟩ := h
      have hkept := ledger_noteMismatch { p₁ with generator := g } n (feeds.map (·.2))
      have hkept' := ledger_noteMismatch { q₁ with generator := g' } { n with isSource := mark }
        (feeds.map (·.2))
      refine .ok ⟨⟨some (Layer.form _), noted⟩, ⟨?_, hnoted⟩, hp.ledger_made hkept n.id _,
        (hq.ledger_made hkept' n.id _).trans ?_⟩
      · rintro F ⟨⟩
        rfl
      · have hforms := sameForms_of_akin hweights
        rw [SameForms] at hforms
        simp only [Layer.form, hforms, Node.displayLabel]

/-- A node placed in two compilations. -/
theorem place_twin (hplan : plan.Like plan') {n : Node} (hn : plan.node? n.id = some n)
    (hc : ∀ d, ∀ c ∈ plan.incoming d n,
      p.ledger.shape? c.source = q.ledger.shape? c.source) :
    Twin anyFault (SameTurn plan p q n.id) (place plan p n.id) (place plan' q n.id) := by
  obtain ⟨mark, hn'⟩ := hplan.node?_eq_some hn
  rw [place, place, hn, hn']
  dsimp only
  rw [hplan.catalog]
  split
  · rename_i k d hk hd
    refine (feedsOf_twin hplan mark (hc d)).bind fun x y h => ?_
    obtain ⟨noted, hnoted, hx, hy⟩ := h.noted
    obtain ⟨warnings, hp⟩ := limitFeeds_fst k x.1 n x.2
    obtain ⟨warnings', hq⟩ := limitFeeds_fst k y.1 { n with isSource := mark } y.2
    rw [hp, hq, limitFeeds_snd, limitFeeds_snd, ← h.feeds]
    cases hparams : d.effectiveParams n.params with
    | error fault => exact .error trivial
    | ok params =>
        exact addLayer_twin k n mark params _ hnoted ⟨hx.layers, hx.skipped, hx.external⟩
          ⟨hy.layers, hy.skipped, hy.external⟩
  · exact .ok ⟨⟨none, []⟩, ⟨by simp, by simp⟩, (Notes.refl p).ledger_skip _ _ p.generator,
      (Notes.refl q).ledger_skip _ _ q.generator⟩

end Compilation

end BlockNet
