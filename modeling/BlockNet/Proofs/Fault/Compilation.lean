import BlockNet.Proofs.Compilation.Layers
import BlockNet.Proofs.Fault.Layer

/-! # Faults of compilation

A compilation stops only at faults of the work, and so does the reading of the graph that it starts
from. -/

namespace BlockNet

/-! ## Settings -/

namespace ParamSpec

variable (spec : ParamSpec)

@[simp]
theorem withinBounds_fails (number : Number) : FailsBy Fault.OfWork (spec.withinBounds number) := by
  have hbound : ∀ beyond bound, FailsBy Fault.OfWork (fails beyond number bound) := by
    intro beyond bound
    fun_cases fails <;> simp
  simp [withinBounds, hbound]

@[simp]
theorem coerce_fails (value : Value) (blockType : String) :
    FailsBy Fault.OfWork (spec.coerce value blockType) := by
  have hnumber : FailsBy Fault.OfWork (readNumber value) := by
    fun_cases readNumber <;> simp
  have hread : FailsBy Fault.OfWork (spec.read value) := by
    rw [read]
    split
    · simp
    · simp
    · simp
    · refine failsBy_bind.mpr ⟨hnumber, fun number _ => ?_⟩
      split <;> simp
  refine failsBy_bind.mpr ⟨hread, fun result _ => ?_⟩
  split <;> simp

end ParamSpec

@[simp]
theorem BlockDefinition.effectiveParams_fails (d : BlockDefinition) (overrides : Entries) :
    FailsBy Fault.OfWork (d.effectiveParams overrides) := by
  have hoverride : ∀ name value, FailsBy Fault.OfWork (d.coerceOverride name value) := by
    intro name value
    rw [coerceOverride]
    split <;> simp
  simp [effectiveParams, defaults, hoverride]

@[simp]
theorem Node.effectiveParams_fails (n : Node) (catalog : Catalog) :
    FailsBy Fault.OfWork (n.effectiveParams catalog) := by
  have hrequire : FailsBy Fault.OfWork (catalog.require n.blockType) := by
    rw [Catalog.require]
    split <;> simp
  simp [effectiveParams, hrequire]

/-! ## Graphs -/

@[simp]
theorem Value.mentions_fails (v : Value) (name : String) :
    FailsBy Fault.OfWork (v.mentions name) := by
  fun_cases mentions <;> simp

@[simp]
theorem Node.ofValue_fails (payload : Value) : FailsBy Fault.OfWork (ofValue payload) := by
  refine failsBy_bind.mpr ⟨by simp, fun editor _ => ?_⟩
  split <;> simp [ofEditor, ofFlat, paramsOf]

@[simp]
theorem Connection.ofValue_fails (payload : Value) : FailsBy Fault.OfWork (ofValue payload) := by
  have hid : ∀ payload, FailsBy Fault.OfWork (idOf payload) := by
    simp [idOf]
  refine failsBy_bind.mpr ⟨by simp, fun source _ => ?_⟩
  refine failsBy_bind.mpr ⟨by simp, fun target _ => ?_⟩
  split <;> simp [ofEditor, ofFlat, textOf, hid]

/-- The reading of a graph. -/
theorem Graph.ofValues_fails (nodes edges : Value) : FailsBy Fault.OfWork (ofValues nodes edges) := by
  simp [ofValues]

/-! ## Compilation -/

@[simp]
theorem DatasetSpec.inputShape_fails (spec : DatasetSpec) : FailsBy Fault.OfWork spec.inputShape := by
  simp [inputShape]

@[simp]
theorem InputSpec.toBatched_fails (input : InputSpec) : FailsBy Fault.OfWork input.toBatched := by
  cases input <;> simp [toBatched]

/-- Is a fault that of a shape that cannot be resolved? -/
def Fault.Unresolved (fault : Fault) : Prop := ∃ kind reason, fault = .unresolvedShape kind reason

namespace Compilation

@[simp]
theorem firstDataset_fails (catalog : Catalog) (known : List Node) :
    FailsBy Fault.OfWork (firstDataset catalog known) := by
  rw [firstDataset]
  split <;> simp

@[simp]
theorem modelInputShape_fails (input : Option InputSpec) (dataset : Option String) :
    FailsBy Fault.OfWork (modelInputShape input dataset).1 := by
  fun_cases modelInputShape <;> simp

theorem Plan.externalShape_fails (plan : Plan) (source : Node) (port : Value) :
    FailsBy Fault.OfWork (plan.externalShape source port).1 := by
  rw [externalShape]
  split
  · simp
  · split
    · simp
    · split
      · rename_i fault hname
        have hfails : FailsBy Fault.OfWork
            (source.effectiveParams plan.catalog >>= fun params => params.require "dataset") := by
          simp
        exact failsBy_error.mpr (hfails fault hname)
      · simp

/-! ## Ways of stopping -/

section Stops

variable {β : Type} {P : Fault → Prop}

/-- Did a compilation stop at a fault that has a property? -/
def Stopped.At (P : Fault → Prop) (s : Stopped) : Prop := P s.fault

@[simp]
theorem stop_stops (log : List LogEntry) (fault : Fault) :
    FailsBy (Stopped.At P) (stop log fault : Step β) ↔ P fault :=
  failsBy_error

@[simp]
theorem orStop_stops (log : List LogEntry) (x : Outcome β) :
    FailsBy (Stopped.At P) (orStop log x) ↔ FailsBy P x :=
  failsBy_mapError

/-! ## The turn of a node -/

/-- Nothing can go wrong with what feeds a node but by faults that have a property. -/
def SourcesFailBy (P : Fault → Prop) (plan : Plan) (n : Node) (d : BlockDefinition) : Prop :=
  ∀ c ∈ plan.incoming d n, ∀ source, plan.node? c.source = some source →
    FailsBy P (plan.externalShape source c.sourcePort).1

variable {plan : Plan} {n : Node} {d : BlockDefinition}

theorem feedsOf_stops {α : Type} (h : SourcesFailBy P plan n d) (p : Progress α) :
    FailsBy (Stopped.At P) (feedsOf plan p d n) := by
  have hfeed : ∀ acc : Progress α × List Feed, ∀ c ∈ plan.incoming d n,
      FailsBy (Stopped.At P) (addFeed plan acc c) := by
    intro acc c hc
    rw [addFeed]
    dsimp only
    split
    · simp
    · rename_i source hsource
      split
      · simp
      · split
        · simp
        · split
          · rename_i fault hfault
            exact (stop_stops ..).mpr (h c hc source hsource fault hfault)
          · simp
          · simp
  exact failsBy_bind.mpr ⟨failsBy_foldlM hfeed _, by simp⟩

theorem feedsOf_ne_nil {α : Type} {p p' : Progress α} {feeds : List Feed}
    (h : feedsOf plan p d n = .ok (p', feeds)) : feeds ≠ [] := by
  obtain ⟨⟨p₁, fed⟩, -, h⟩ := bind_eq_ok.mp h
  obtain ⟨-, rfl⟩ := Prod.mk.inj (Except.ok.inj h)
  split
  · exact List.cons_ne_nil _ _
  · rename_i hfed
    exact fun hnil => hfed (List.isEmpty_iff.mpr hnil)

variable {α : Type} [Scalar α] {k : Kernel} {p : Progress α}

/-- What may go wrong with the making of a layer. A shape that cannot be resolved stops nothing. -/
def MakingFailsBy (P : Fault → Prop) (k : Kernel) (params : Entries) (p : Progress α)
    (feeds : List Feed) : Prop :=
  FailsBy (fun fault => Fault.Unresolved fault ∨ P fault)
    ((construct k params (feeds.map (·.2)) : Draws (TensorShape × List (Weight α))).run
      p.generator).1

/-- Nothing that stops a compilation can go wrong in the turn of a node but by faults that have a
property. -/
structure TurnFailsBy (P : Fault → Prop) (plan : Plan) (p : Progress α) (n : Node) (k : Kernel)
    (d : BlockDefinition) : Prop where
  sources : SourcesFailBy P plan n d
  settings : FailsBy P (d.effectiveParams n.params)
  making : ∀ params p' feeds, d.effectiveParams n.params = .ok params →
    feedsOf plan p d n = .ok (p', feeds) → MakingFailsBy P k params p' (limited k feeds)

theorem addLayer_stops {params : Entries} {feeds : List Feed} (h : MakingFailsBy P k params p feeds)
    (n : Node) : FailsBy (Stopped.At P) (addLayer k p n params feeds) := by
  rw [addLayer]
  dsimp only
  split
  rename_i made generator hrun
  rw [MakingFailsBy, hrun] at h
  split
  · simp
  · rename_i fault hresolved
    rcases failsBy_error.mp h with ⟨kind, reason, rfl⟩ | hfault
    · exact absurd rfl (hresolved kind reason)
    · exact (stop_stops ..).mpr hfault
  · simp

theorem place_stops {id : String}
    (h : ∀ n k d, n.id = id → plan.node? id = some n → Kernel.ofKind? n.blockType = some k →
      plan.catalog.get? n.blockType = some d → TurnFailsBy P plan p n k d) :
    FailsBy (Stopped.At P) (place plan p id) := by
  rw [place]
  split
  · simp
  · rename_i n hnode
    split
    · rename_i k d hk hd
      have hturn := h n k d (Plan.node?_id hnode) hnode hk hd
      refine failsBy_bind.mpr ⟨feedsOf_stops hturn.sources p, fun fed hfed => ?_⟩
      dsimp only
      refine failsBy_bind.mpr ⟨(orStop_stops ..).mpr hturn.settings, fun params hparams => ?_⟩
      have hmade := hturn.making params fed.1 fed.2 (orStop_eq_ok.mp hparams) hfed
      obtain ⟨warnings, hp⟩ := limitFeeds_fst k fed.1 n fed.2
      rw [limitFeeds_snd, hp]
      exact addLayer_stops (p := { fed.1 with warnings }) hmade n
    · simp

end Stops

/-! ## All turns -/

/-- The turn of a node comes in the compilation of a graph: the plan is the one for the graph and the
input, and the turns before came to the progress, drawing from the stream of the seed. -/
structure TurnComes {α : Type} [Scalar α] (catalog : Catalog) (seed : Value) (g : Graph)
    (input : Option InputSpec) (plan : Plan) (p : Progress α) (id : String) : Prop where
  planned : ∃ dataset shape, firstDataset catalog (knownNodes catalog g.nodes) = .ok dataset ∧
    (modelInputShape input dataset).1 = .ok shape ∧
      plan = ⟨catalog, knownNodes catalog g.nodes, g.connections, shape⟩
  reached : ∃ s log warnings skipped before after, seed.toInt = .ok s ∧
    (scheduleFor catalog g).order = before ++ id :: after ∧
      before.foldlM (place plan) (Progress.start (.seeded s) log warnings skipped) = .ok p

/-- A compilation stops only at faults that have a property, if all that it does fails so. -/
theorem run_stops {α : Type} [Scalar α] {P : Fault → Prop} {catalog : Catalog} {seed : Value}
    {g : Graph} {input : Option InputSpec} (hnone : P .noValidLayers)
    (hdataset : FailsBy P (firstDataset catalog (knownNodes catalog g.nodes)))
    (hinput : ∀ dataset, FailsBy P (modelInputShape input dataset).1)
    (hseed : FailsBy P seed.toInt)
    (hturn : ∀ plan (p : Progress α) n k d, TurnComes catalog seed g input plan p n.id →
      plan.node? n.id = some n → Kernel.ofKind? n.blockType = some k →
        catalog.get? n.blockType = some d → TurnFailsBy P plan p n k d) :
    FailsBy (Stopped.At P) (run catalog seed g input : Step (Model α × List LogEntry)) := by
  rw [run]
  dsimp only
  rw [failsBy_ite]
  refine ⟨fun _ => (stop_stops ..).mpr hnone, fun _ => ?_⟩
  refine failsBy_bind.mpr ⟨(orStop_stops ..).mpr hdataset, fun dataset hdataset => ?_⟩
  refine failsBy_bind.mpr ⟨(orStop_stops ..).mpr (hinput dataset), fun shape hshape => ?_⟩
  refine failsBy_bind.mpr ⟨(orStop_stops ..).mpr hseed, fun s hs => ?_⟩
  refine failsBy_bind.mpr ⟨failsBy_foldlM_reached ?_, fun p _ => ?_⟩
  · intro before id after p horder hp
    refine place_stops ?_
    rintro n k d rfl hnode hk hd
    refine hturn _ p n k d ⟨⟨dataset, shape, ?_, ?_, rfl⟩, s, _, _, _, before, after, ?_, horder, hp⟩
      hnode hk hd
    · exact orStop_eq_ok.mp hdataset
    · exact orStop_eq_ok.mp hshape
    · exact orStop_eq_ok.mp hs
  · split
    · exact (stop_stops ..).mpr hnone
    · simp

end Compilation

/-- A compilation fails only by faults that have a property, if all that it does fails so. -/
theorem compile_failsBy {α : Type} [Scalar α] {P : Fault → Prop} {catalog : Catalog} {seed : Value}
    {g : Graph} {input : Option InputSpec}
    (hrun : FailsBy (Compilation.Stopped.At P)
      (Compilation.run catalog seed g input : Compilation.Step (Model α × List LogEntry))) :
    FailsBy P (compile (α := α) catalog seed g input).1 := by
  rw [compile]
  split
  · simp
  · rename_i s hstop
    exact failsBy_error.mpr (hrun s hstop)

/-- A compilation fails only by faults of the work. -/
theorem compile_fails {α : Type} [Scalar α] (catalog : Catalog) (seed : Value) (g : Graph)
    (input : Option InputSpec) : FailsBy Fault.OfWork (compile (α := α) catalog seed g input).1 := by
  refine compile_failsBy (Compilation.run_stops trivial (by simp) (by simp) (by simp) ?_)
  intro plan p n k d _ _ _ _
  refine ⟨fun c _ source _ => plan.externalShape_fails source c.sourcePort, by simp, ?_⟩
  intro params p' feeds _ _ fault hfault
  have hmade : DrawsFailBy Fault.OfWork
      (Compilation.construct k params ((Compilation.limited k feeds).map (·.2)) :
        Draws (TensorShape × List (Weight α))) := by
    simp [Compilation.construct]
  exact .inr (hmade p'.generator fault hfault)

end BlockNet
