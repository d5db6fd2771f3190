import BlockNet.Proofs.Compilation.Parallel

/-! # Compilations from different seeds

A graph compiled from two seeds is gone through in step: what is noted, skipped and fed is the same,
and the layers differ in drawn values only. The streams differ from the first draw on, so they are
left out of the comparison. -/

namespace BlockNet

variable {α : Type}

/-- A layer but for the values drawn for its weights. -/
structure Layer.Akin (l l' : Layer α) : Prop where
  weights : AkinWeights l.weights l'.weights
  rest : l' = { l with weights := l'.weights }

/-- A model but for the values drawn for the weights of its layers. -/
structure Model.Akin (m m' : Model α) : Prop where
  layers : List.Forall₂ Layer.Akin m.layers m'.layers
  rest : m' = { m with layers := m'.layers }
  weightCount : m'.weightCount = m.weightCount

/-- Members of two lists side by side, and a figure that is the same for each of them. -/
theorem map_eq_of_forall₂ {β γ : Type} {R : β → β → Prop} {f : β → γ} {xs ys : List β}
    (h : List.Forall₂ R xs ys) (hf : ∀ x y, R x y → f y = f x) : ys.map f = xs.map f := by
  induction h with
  | nil => rfl
  | cons hxy _ ih => rw [List.map_cons, List.map_cons, ih, hf _ _ hxy]

theorem Layer.Akin.weightCount {l l' : Layer α} (h : l.Akin l') :
    l'.weightCount = l.weightCount := by
  have hsize : ∀ w w' : Weight α, w.Akin w' → w'.tensor.size = w.tensor.size := by
    intro w w' hw
    rw [Tensor.size, hw.dims, Tensor.size]
  rw [Layer.weightCount, map_eq_of_forall₂ h.weights hsize, Layer.weightCount]

theorem Layer.Akin.bearsWeights {l l' : Layer α} (h : l.Akin l') :
    l'.bearsWeights = l.bearsWeights := by
  rw [Layer.bearsWeights, Layer.bearsWeights, Compilation.isEmpty_congr h.weights.length_eq]

theorem Model.akin_of_layers (m : Model α) {layers : List (Layer α)}
    (h : List.Forall₂ Layer.Akin m.layers layers) : m.Akin { m with layers } := by
  refine ⟨h, rfl, ?_⟩
  rw [Model.weightCount, map_eq_of_forall₂ h fun l l' hl => hl.weightCount, Model.weightCount]

theorem Model.Akin.bearers {m m' : Model α} (h : m.Akin m') :
    List.Forall₂ Layer.Akin m.bearers m'.bearers := by
  have hsame : Relator.LiftFun Layer.Akin (· ↔ ·) (fun l : Layer α => l.bearsWeights = true)
      fun l => l.bearsWeights = true := by
    intro l l' hl
    dsimp only
    rw [hl.bearsWeights]
  exact List.rel_filter hsame h.layers

namespace Compilation

variable {plan : Plan} {p q : Progress α}

/-- Two compilations that have come to the same but for drawn values. -/
structure Progress.Akin (p q : Progress α) : Prop where
  layers : List.Forall₂ Layer.Akin p.layers q.layers
  rest : q = { p with layers := q.layers, generator := q.generator }

theorem Progress.Akin.log (h : p.Akin q) : q.log = p.log := by rw [h.rest]

theorem Progress.Akin.addLog (h : p.Akin q) (log : List LogEntry) :
    Progress.Akin { p with log := p.log ++ log } { q with log := q.log ++ log } := by
  refine ⟨h.layers, ?_⟩
  rw [h.rest]

theorem Progress.Akin.skip (h : p.Akin q) (n : Node) (warning : String) (entry : LogEntry) :
    (p.skip n warning entry).Akin (q.skip n warning entry) := by
  refine ⟨h.layers, ?_⟩
  rw [h.rest]
  rfl

theorem Progress.Akin.addExternal (h : p.Akin q) (source : Node) (port : Value) (key : String)
    (shape : TensorShape) :
    (p.addExternal source port key shape).Akin (q.addExternal source port key shape) := by
  refine ⟨h.layers, ?_⟩
  rw [h.rest]
  rfl

theorem find?_akin {ls ls' : List (Layer α)} (h : List.Forall₂ Layer.Akin ls ls') (id : String) :
    Option.Rel Layer.Akin (ls.find? (·.id == id)) (ls'.find? (·.id == id)) := by
  induction h with
  | nil => exact .none
  | @cons l l' ls ls' hl _ ih =>
      have hid : l'.id = l.id := by rw [hl.rest]
      rw [List.find?_cons, List.find?_cons, hid]
      split
      · exact .some hl
      · exact ih

/-- A node has become a layer in both or in neither, and of the same shape. -/
theorem Progress.Akin.shape? (h : p.Akin q) (id : String) :
    (q.layer? id).map (·.outputShape) = (p.layer? id).map (·.outputShape) := by
  have hfound := find?_akin h.layers id
  rw [Progress.layer?, Progress.layer?]
  revert hfound
  generalize p.layers.find? (·.id == id) = l?
  generalize q.layers.find? (·.id == id) = l'?
  rintro (hl | _)
  · rw [Option.map_some, Option.map_some, hl.rest]
  · rfl

/-! ## Feeds -/

/-- Two steps within the placing of a node, with the same feeds so far. -/
def AkinFeeds (x y : Progress α × List Feed) : Prop := x.1.Akin y.1 ∧ y.2 = x.2

theorem addFeed_akin (c : Connection) {x y : Progress α × List Feed} (h : AkinFeeds x y) :
    Twin Eq AkinFeeds (addFeed plan x c) (addFeed plan y c) := by
  obtain ⟨p, feeds⟩ := x
  obtain ⟨q, feeds'⟩ := y
  obtain ⟨hpq, hfeeds⟩ := h
  dsimp only at hpq hfeeds
  subst hfeeds
  simp only [addFeed]
  cases plan.node? c.source with
  | none => exact .ok ⟨hpq, rfl⟩
  | some source =>
      have hshape := hpq.shape? source.id
      cases hp : p.layer? source.id with
      | some l =>
          rw [hp] at hshape
          obtain ⟨l', hq, hl⟩ := Option.map_eq_some_iff.mp hshape
          simp only [hp, hq, hl]
          exact .ok ⟨hpq, rfl⟩
      | none =>
          rw [hp] at hshape
          have hq : q.layer? source.id = none := Option.map_eq_none_iff.mp hshape
          simp only [hp, hq]
          by_cases hquiet : plan.catalog.isComputational source.blockType = true
          · simp only [hquiet, if_true]
            exact .ok ⟨hpq, rfl⟩
          · simp only [hquiet]
            rcases plan.externalShape source c.sourcePort with ⟨fault | _ | shape, log⟩
            · exact .error (by rw [hpq.log])
            · cases plan.catalog.get? source.blockType <;> exact .ok ⟨hpq.addLog log, rfl⟩
            · cases plan.catalog.get? source.blockType with
              | none => exact .ok ⟨hpq.addLog log, rfl⟩
              | some d => exact .ok ⟨(hpq.addLog log).addExternal _ _ _ _, rfl⟩

theorem feedsOf_akin (h : p.Akin q) (d : BlockDefinition) (n : Node) :
    Twin Eq AkinFeeds (feedsOf plan p d n) (feedsOf plan q d n) := by
  have hstart : AkinFeeds (p, []) (q, []) := ⟨h, rfl⟩
  refine (Twin.foldlM (fun c _ x y => addFeed_akin c) hstart).bind fun x y hxy => .ok ⟨hxy.1, ?_⟩
  dsimp only
  rw [hxy.2]

theorem limitFeeds_akin (h : p.Akin q) (k : Kernel) (n : Node) (feeds : List Feed) :
    AkinFeeds (limitFeeds k p n feeds) (limitFeeds k q n feeds) := by
  rw [limitFeeds, limitFeeds]
  split
  · exact ⟨h, rfl⟩
  · split
    · exact ⟨h, rfl⟩
    · refine ⟨⟨h.layers, ?_⟩, rfl⟩
      rw [h.rest]

/-! ## One node -/

theorem noteMismatch_akin (h : p.Akin q) (n : Node) (shapes : List TensorShape) :
    (noteMismatch p n shapes).Akin (noteMismatch q n shapes) := by
  rw [noteMismatch, noteMismatch]
  split
  · refine ⟨h.layers, ?_⟩
    rw [h.rest]
  · exact h

theorem Progress.Akin.addMade (h : p.Akin q) {l l' : Layer α} (hl : l.Akin l') :
    Progress.Akin { p with layers := p.layers ++ [l] } { q with layers := q.layers ++ [l'] } := by
  refine ⟨List.rel_append h.layers (.cons hl .nil), ?_⟩
  rw [h.rest]

theorem Progress.Akin.drawn (h : p.Akin q) (g g' : Generator) :
    Progress.Akin { p with generator := g } { q with generator := g' } := by
  refine ⟨h.layers, ?_⟩
  rw [h.rest]

variable [Scalar α]

theorem addLayer_akin (h : p.Akin q) (k : Kernel) (n : Node) (params : Entries)
    (feeds : List Feed) :
    Twin Eq Progress.Akin (addLayer k p n params feeds) (addLayer k q n params feeds) := by
  have hmade := construct_akin (α := α) k params (feeds.map (·.2)) p.generator q.generator
  rcases hp : (construct k params (feeds.map (·.2)) : Draws (_ × List (Weight α))).run
    p.generator with ⟨made, g⟩
  rcases hq : (construct k params (feeds.map (·.2)) : Draws (_ × List (Weight α))).run
    q.generator with ⟨made', g'⟩
  rw [hp, hq] at hmade
  have hdrawn := h.drawn g g'
  simp only [addLayer, hp, hq]
  cases hmade with
  | @error fault _ hfault =>
      obtain rfl := hfault
      -- a build that fails midway leaves different streams, but the same node skipped
      cases fault with
      | unresolvedShape kind reason => exact .ok (hdrawn.skip n _ _)
      | _ => exact .error (by rw [h.log])
  | @ok made made' hsame =>
      obtain ⟨shape, weights⟩ := made
      obtain ⟨shape', weights'⟩ := made'
      obtain ⟨rfl, hweights⟩ := hsame
      have hnoted := noteMismatch_akin hdrawn n (feeds.map (·.2))
      dsimp only
      generalize noteMismatch { p with generator := g } n (feeds.map (·.2)) = p₁ at hnoted ⊢
      generalize noteMismatch { q with generator := g' } n (feeds.map (·.2)) = q₁ at hnoted ⊢
      exact .ok (hnoted.addMade ⟨hweights, rfl⟩)

/-- A node placed in both compilations. -/
theorem place_akin (h : p.Akin q) (id : String) :
    Twin Eq Progress.Akin (place plan p id) (place plan q id) := by
  rw [place, place]
  split
  · exact .ok h
  · rename_i n _
    split
    · rename_i k d _ _
      refine (feedsOf_akin h d n).bind fun x y hxy => ?_
      obtain ⟨p₁, feeds⟩ := x
      obtain ⟨q₁, feeds'⟩ := y
      obtain ⟨hpq, rfl⟩ := hxy
      have hlimited := limitFeeds_akin hpq k n feeds'
      dsimp only at hlimited ⊢
      rw [hlimited.1.log, hlimited.2]
      refine (Twin.refl _).bind fun params _ hparams => ?_
      rw [← hparams]
      exact addLayer_akin hlimited.1 k n params _
    · exact .ok (h.skip n _ _)

/-! ## Models -/

omit [Scalar α] in
theorem finished_akin {m m' : Model α} (h : m.Akin m') : finished m' = finished m := by
  rw [finished, finished, h.layers.length_eq, h.bearers.length_eq, h.weightCount]

theorem run_akin (catalog : Catalog) (g : Graph) (input : Option InputSpec) (seed seed' : Int) :
    Twin Eq (fun r r' : Model α × List LogEntry => r.1.Akin r'.1 ∧ r'.2 = r.2)
      (run catalog (.int seed) g input) (run catalog (.int seed') g input) := by
  rw [run, run]
  split
  · exact .error rfl
  refine (Twin.refl _).bind ?_
  rintro dataset - rfl
  refine (Twin.refl _).bind ?_
  rintro shape - rfl
  refine (Twin.foldlM (fun id _ p q h => place_akin h id) ⟨.nil, rfl⟩).bind ?_
  intro p q h
  rw [← isEmpty_congr h.layers.length_eq, h.log]
  split
  · exact .error rfl
  · obtain ⟨hlayers, hrest⟩ := h
    generalize q.layers = layers at hlayers hrest
    generalize q.generator = generator at hrest
    subst hrest
    refine .ok ⟨Model.akin_of_layers _ hlayers, ?_⟩
    exact congrArg (fun note => p.log ++ [note]) (finished_akin (Model.akin_of_layers _ hlayers))

/-- A graph compiled from two seeds comes to the same fault, or to two models that are told apart by
nothing but the values drawn for weights. What is noted on the way is the same. -/
theorem compile_seeded (catalog : Catalog) (g : Graph) (input : Option InputSpec)
    (seed seed' : Int) :
    Twin Eq (Model.Akin (α := α)) (compile catalog (.int seed) g input).1
        (compile catalog (.int seed') g input).1 ∧
      (compile (α := α) catalog (.int seed') g input).2 =
        (compile (α := α) catalog (.int seed) g input).2 := by
  have hrun := run_akin (α := α) catalog g input seed seed'
  rw [compile, compile]
  revert hrun
  cases run (α := α) catalog (.int seed) g input <;>
    cases run (α := α) catalog (.int seed') g input <;> intro hrun <;> cases hrun
  · rename_i h
    rw [h]
    exact ⟨.error rfl, rfl⟩
  · rename_i h
    exact ⟨.ok h.1, h.2⟩

end Compilation

end BlockNet
