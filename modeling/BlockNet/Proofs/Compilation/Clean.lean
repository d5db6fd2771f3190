import BlockNet.Proofs.Compilation.Built
import BlockNet.Proofs.Compilation.Keys
import BlockNet.Proofs.Fault.Compilation
import BlockNet.Proofs.Graph.Verdicts
import BlockNet.Proofs.Layer.Unmade

/-! # Compiling clean graphs

A check of a graph reads the settings of a node where a connection leads from it to a listed node. A
compilation reads the settings of all its layers, the last ones included, and of its data source. So
a clean report vouches for the nodes that feed others, and a graph without a problem fails to compile
over the settings of a node that feeds none, or over weights that no tensor holds. -/

namespace BlockNet

/-- A connection leads from the node to a listed node. -/
def Graph.Feeds (g : Graph) (n : Node) : Prop :=
  ∃ c ∈ g.connections, c.source = n.id ∧ c.target ∈ g.nodes.map (·.id)

/-- A compilation reads the settings of the node and a check does not: it is a layer or a data source
and feeds no listed node. -/
structure Graph.Unchecked (g : Graph) (n : Node) : Prop where
  mem : n ∈ g.nodes
  read : (Kernel.ofKind? n.blockType).isSome ∨ n.blockType = "DataLoader"
  last : ¬g.Feeds n

variable {g : Graph} {n : Node}

/-! ## What a clean report vouches for -/

theorem lastNode?_of_mem {nodes : List Node} (hids : (nodes.map (·.id)).Nodup) (hn : n ∈ nodes) :
    lastNode? nodes n.id = some n :=
  find?_of_unique (List.mem_reverse.mpr hn) (beq_self_eq_true _) fun _ hm hid =>
    List.inj_on_of_nodup_map hids (List.mem_reverse.mp hm) hn (eq_of_beq hid)

theorem connectionIssue_of_clean {catalog : Catalog} (h : validateGraph catalog g = .ok [])
    {c : Connection} (hc : c ∈ g.connections) : connectionIssue catalog g.nodes c = .ok none := by
  obtain ⟨answers, hanswers, hnone⟩ := bind_eq_ok.mp h
  obtain ⟨answer, hmem, hanswer⟩ := exists_mem_of_mapM hanswers hc
  have hall := List.filterMap_eq_nil_iff.mp (Except.ok.inj hnone) answer hmem
  rw [hanswer, ← hall, id]

/-- A connection that is judged and has no problem comes from a node whose settings can be read. -/
theorem effectiveParams_of_connectionIssue {nodes : List Node} {c : Connection} {source target : Node}
    (h : connectionIssue Stock.catalog nodes c = .ok none)
    (hsource : lastNode? nodes c.source = some source)
    (htarget : lastNode? nodes c.target = some target) :
    ∃ d params, Stock.catalog.get? source.blockType = some d ∧
      d.effectiveParams source.params = .ok params := by
  rw [connectionIssue_eq hsource htarget] at h
  rcases validateConnection_cases source c.sourcePort target c.targetPort with
    ⟨code, message, hrefused⟩ | ⟨d, e, hd, he, houtput, hinput⟩
  · rw [hrefused] at h
    cases h
  · obtain ⟨expected, hexpected⟩ := Option.isSome_iff_exists.mp hinput
    rw [validateConnection_eq hd he houtput hexpected] at h
    cases hparams : d.effectiveParams source.params with
    | ok params => exact ⟨d, params, hd, hparams⟩
    | error fault =>
        rw [inferred, Stock.inferOutputShape_eq_error hd houtput hparams] at h
        cases fault <;> cases h

/-- In a graph with a clean report the settings of a node that feeds another one can be read. -/
theorem Graph.Feeds.effectiveParams (h : g.Feeds n) (hids : (g.nodes.map (·.id)).Nodup)
    (hclean : validateGraph Stock.catalog g = .ok []) (hn : n ∈ g.nodes) :
    ∃ d params, Stock.catalog.get? n.blockType = some d ∧
      d.effectiveParams n.params = .ok params := by
  obtain ⟨c, hc, hsource, htarget⟩ := h
  obtain ⟨target, hmem, hid⟩ := List.mem_map.mp htarget
  have hissue := connectionIssue_of_clean hclean hc
  refine effectiveParams_of_connectionIssue hissue ?_ (hid ▸ lastNode?_of_mem hids hmem)
  rw [hsource]
  exact lastNode?_of_mem hids hn

/-! ## Datasets -/

/-- Whatever a value names, the dataset that it stands for has a shape. -/
theorem DatasetSpec.exists_inputShape (name : Value) : ∃ s, (find name).1.inputShape = .ok s := by
  have hstock : ∀ e ∈ stock, ∃ s, e.2.inputShape = .ok s := by
    simp only [stock, List.forall_mem_cons]
    exact ⟨⟨_, rfl⟩, ⟨_, rfl⟩, ⟨_, rfl⟩, ⟨_, rfl⟩, by simp⟩
  fun_cases find name with
  | case1 => exact ⟨_, rfl⟩
  | case2 name hname spec hspec =>
      obtain ⟨e, he, rfl⟩ := Option.map_eq_some_iff.mp hspec
      exact hstock e (List.mem_of_find?_eq_some he)
  | case3 => exact ⟨_, rfl⟩

/-- The settings of a data source name a dataset. -/
theorem Stock.dataset_eq_ok {overrides params : Entries}
    (h : dataLoader.effectiveParams overrides = .ok params) :
    ∃ v, params.require "dataset" = .ok v := by
  have hschemas : Schemas dataLoader.parameters := by
    refine .cons rfl ?_ (ParamSpec.integer_admits _ (by simp) (by simp)) <|
      .cons rfl ?_ (ParamSpec.boolean_admits _ _) <|
        .cons rfl (by simp) (ParamSpec.choice_admits _ (by decide)) .nil
    · simp [ParamSpec.boolean, ParamSpec.choice]
    · simp [ParamSpec.choice]
  obtain ⟨s, -, hs⟩ := (BlockDefinition.effectiveParams_fit hschemas h).choice
    (.tail _ (.tail _ (.head _)))
  exact ⟨.text s, by rw [Entries.require, hs]; rfl⟩

namespace Compilation

/-- A source outside the model gives a shape if its settings can be read. -/
theorem externalShape_of_settings (plan : Plan) (hcatalog : plan.catalog = Stock.catalog)
    {d : BlockDefinition} {params : Entries} (hd : Stock.catalog.get? n.blockType = some d)
    (hparams : d.effectiveParams n.params = .ok params) (port : Value) :
    ∃ shape, (plan.externalShape n port).1 = .ok shape := by
  rw [Plan.externalShape, hcatalog]
  split
  · exact ⟨none, rfl⟩
  · split
    · exact ⟨_, rfl⟩
    · rename_i htype
      have htype : n.blockType = "DataLoader" := by simpa using htype
      have hloader : Stock.catalog.get? n.blockType = some Stock.dataLoader := htype ▸ rfl
      obtain rfl := Option.some.inj (hloader.symm.trans hd)
      obtain ⟨name, hname⟩ := Stock.dataset_eq_ok hparams
      obtain ⟨shape, hshape⟩ := DatasetSpec.exists_inputShape name
      have hread : (n.effectiveParams Stock.catalog >>= fun params => params.require "dataset") =
          .ok name := by
        rw [Node.effectiveParams, Catalog.require, hd, ok_bind, hparams, ok_bind, hname]
      simp only [hread, hshape]
      split
      · exact ⟨_, rfl⟩
      · exact ⟨_, rfl⟩

/-! ## Compiling a clean graph -/

variable (α : Type) [Scalar α] {seed : Value} {input : Option InputSpec}

/-- The faults at which the compilation of a graph may stop although its report is clean: no node
becomes a layer, or settings that the check does not read cannot be read, or a weight is more than a
tensor can hold when a layer is made in the turn of its node. -/
inductive Excused (seed : Value) (g : Graph) (input : Option InputSpec) : Fault → Prop
  | empty : Excused seed g input .noValidLayers
  | settings {n : Node} {d : BlockDefinition} {fault : Fault} (unchecked : g.Unchecked n)
      (definition : Stock.catalog.get? n.blockType = some d)
      (fails : d.effectiveParams n.params = .error fault) : Excused seed g input fault
  | weights {plan : Plan} {p p' : Progress α} {n : Node} {k : Kernel} {d : BlockDefinition}
      {params : Entries} {feeds : List Feed} {m : Mishap}
      (turn : TurnComes Stock.catalog seed g input plan p n.id) (node : plan.node? n.id = some n)
      (kernel : Kernel.ofKind? n.blockType = some k)
      (definition : Stock.catalog.get? n.blockType = some d)
      (settled : d.effectiveParams n.params = .ok params)
      (fed : feedsOf plan p d n = .ok (p', feeds))
      (fails : ((construct k params ((limited k feeds).map (·.2)) :
        Draws (TensorShape × List (Weight α))).run p'.generator).1 = .error (.mishap m))
      (large : m = .tooLarge ∨ m = .wrongType ∨ m = .badTensor) : Excused seed g input (.mishap m)

theorem effectiveParams_excused (hids : (g.nodes.map (·.id)).Nodup)
    (hclean : validateGraph Stock.catalog g = .ok []) (hn : n ∈ g.nodes) {d : BlockDefinition}
    (hd : Stock.catalog.get? n.blockType = some d)
    (hread : (Kernel.ofKind? n.blockType).isSome ∨ n.blockType = "DataLoader") :
    FailsBy (Excused α seed g input) (d.effectiveParams n.params) := by
  intro fault hfault
  refine .settings ⟨hn, hread, fun hfeeds => ?_⟩ hd hfault
  obtain ⟨e, params, he, hparams⟩ := hfeeds.effectiveParams hids hclean hn
  obtain rfl := Option.some.inj (hd.symm.trans he)
  cases hfault.symm.trans hparams

theorem firstDataset_excused (hids : (g.nodes.map (·.id)).Nodup)
    (hclean : validateGraph Stock.catalog g = .ok []) :
    FailsBy (Excused α seed g input)
      (firstDataset Stock.catalog (knownNodes Stock.catalog g.nodes)) := by
  rw [firstDataset]
  split
  · simp
  · rename_i n hfind
    have hn := mem_knownNodes (List.mem_of_find?_eq_some hfind)
    have htype : n.blockType = "DataLoader" := eq_of_beq (List.find?_some hfind :)
    have hd : Stock.catalog.get? n.blockType = some Stock.dataLoader := htype ▸ rfl
    rw [Node.effectiveParams, Catalog.require, hd, ok_bind]
    refine failsBy_bind.mpr
      ⟨effectiveParams_excused α hids hclean hn hd (.inr htype), fun params hparams => ?_⟩
    obtain ⟨name, hname⟩ := Stock.dataset_eq_ok hparams
    rw [hname]
    exact failsBy_ok _

theorem modelInputShape_excused
    (hinput : ∀ spec, input = some spec → ∃ s, spec.toBatched = .ok s) (dataset : Option String) :
    FailsBy (Excused α seed g input) (modelInputShape input dataset).1 := by
  cases input with
  | some spec =>
      obtain ⟨s, hs⟩ := hinput spec rfl
      rw [modelInputShape, hs]
      exact failsBy_ok s
  | none =>
      cases dataset with
      | none => exact failsBy_ok _
      | some name =>
          obtain ⟨s, hs⟩ := DatasetSpec.exists_inputShape (.text name)
          have hnamed : (modelInputShape none (some name)).1 = .ok s := hs
          rw [hnamed]
          exact failsBy_ok s

variable {α}

/-- What can go wrong in the turn of a node of a graph with a clean report. -/
theorem TurnComes.excused {plan : Plan} {p : Progress α} {k : Kernel} {d : BlockDefinition}
    (h : TurnComes Stock.catalog seed g input plan p n.id) (hids : (g.nodes.map (·.id)).Nodup)
    (hclean : validateGraph Stock.catalog g = .ok []) (hnode : plan.node? n.id = some n)
    (hk : Kernel.ofKind? n.blockType = some k) (hd : Stock.catalog.get? n.blockType = some d) :
    TurnFailsBy (Excused α seed g input) plan p n k d := by
  obtain ⟨dataset, shape, -, -, hplan⟩ := h.planned
  have hmem : ∀ id m, plan.node? id = some m → m ∈ g.nodes := by
    intro id m hm
    rw [hplan] at hm
    exact mem_knownNodes (List.mem_of_find?_eq_some hm)
  have hn := hmem n.id n hnode
  constructor
  · -- a source feeds the node, so its settings can be read
    intro c hc source hsource fault hfault
    obtain ⟨hc, htarget, -⟩ := mem_incoming.mp hc
    have hfeeds : g.Feeds source := by
      rw [hplan] at hc
      exact ⟨c, hc, (Plan.node?_id hsource).symm, htarget ▸ List.mem_map_of_mem hn⟩
    obtain ⟨e, params, he, hparams⟩ := hfeeds.effectiveParams hids hclean (hmem _ _ hsource)
    have hcatalog : plan.catalog = Stock.catalog := by rw [hplan]
    obtain ⟨given, hgiven⟩ := externalShape_of_settings plan hcatalog he hparams c.sourcePort
    cases hfault.symm.trans hgiven
  · exact effectiveParams_excused α hids hclean hn hd (.inl (by rw [hk]; rfl))
  · intro params p' feeds hparams hfed fault hfault
    have hfit : params.Fit k.settings :=
      Kernel.fit_settings ((kind_of_ofKind? hk).symm ▸ hd) hparams
    have hne : (limited k feeds).map (·.2) ≠ [] := by
      rw [ne_eq, List.map_eq_nil_iff]
      exact limited_ne_nil k (feedsOf_ne_nil hfed)
    have hmade : DrawsFailBy Fault.Unmade (construct k params ((limited k feeds).map (·.2)) :
        Draws (TensorShape × List (Weight α))) := by
      obtain ⟨first, rest, hshapes⟩ := List.exists_cons_of_ne_nil hne
      rw [hshapes]
      exact construct_unmade first rest hfit
    have hunmade := hmade p'.generator fault hfault
    cases fault with
    | unresolvedShape kind reason => exact .inl ⟨kind, reason, rfl⟩
    | mishap m =>
        refine .inr (.weights h hnode hk hd hparams hfed hfault ?_)
        cases m <;> simp_all
    | _ => exact hunmade.elim

/-- Only a node that the check does not read has a bad parameter. -/
theorem Excused.unchecked {t : String} {name : Value} {reason : String}
    (h : Excused α seed g input (.invalidParameter t name reason)) :
    ∃ n, g.Unchecked n ∧ n.blockType = t := by
  cases h with
  | settings hunchecked hd hfails =>
      rename_i n d
      have htype : d.blockType = n.blockType := eq_of_beq (List.find?_some hd :)
      rcases BlockDefinition.effectiveParams_eq_error (Stock.readable hd) hfails with
        ⟨hlarge, -⟩ | ⟨spec, -, reason', hbad⟩
      · cases hlarge
      · exact ⟨n, hunchecked, htype.symm.trans (Fault.invalidParameter.inj hbad).1.symm⟩

/-- A convolution with a kernel of some size, and a loss of its result. -/
def convolved (size : Value) : Graph where
  nodes := [⟨"conv", "Conv2D", [(.text "kernel_size", size)], .null, false, .null, []⟩,
    ⟨"loss", "MSE", [], .null, false, .null, []⟩]
  connections :=
    [⟨.text "e1", "conv", .text "output", "loss", .text "predictions", .null, .null, []⟩]

/-- A dense layer of so many units, and nothing else. -/
def lone (units : Value) : Graph where
  nodes := [⟨"out", "Dense", [(.text "units", units)], .null, false, .null, []⟩]
  connections := []

end Compilation

end BlockNet
