import BlockNet.Proofs.Compilation.Keys
import BlockNet.Proofs.Compilation.Rearranged

/-! # The account of a compilation

Every node that is to become a layer becomes one, or is skipped with a warning that says why. A
compilation loses no node on the way, however the graph is connected, and takes none twice. -/

namespace BlockNet.Compilation

open List

/-! ## Candidates -/

/-- The nodes of a graph that are to become layers. -/
def candidates (catalog : Catalog) (g : Graph) : List Node :=
  g.nodes.filter fun n => catalog.isComputational n.blockType

variable {catalog : Catalog} {g : Graph} {n : Node}

theorem exists_get?_of_isComputational {t : String} (h : catalog.isComputational t = true) :
    ∃ d, catalog.get? t = some d := by
  rw [Catalog.isComputational] at h
  split at h
  · exact ⟨_, ‹_›⟩
  · cases h

theorem contains_of_isComputational {t : String} (h : catalog.isComputational t = true) :
    catalog.contains t = true := by
  obtain ⟨d, hd⟩ := exists_get?_of_isComputational h
  rw [Catalog.contains, hd]
  rfl

theorem layerNodes_eq_candidates (hids : (g.nodes.map (·.id)).Nodup) :
    layerNodes catalog (knownNodes catalog g.nodes) = candidates catalog g := by
  rw [layerNodes_knownNodes catalog hids, candidates]
  refine filter_congr fun n _ => ?_
  cases hlayer : catalog.isComputational n.blockType with
  | false => rfl
  | true => rw [contains_of_isComputational hlayer, Bool.and_self]

theorem node?_candidate {α : Type} (hids : (g.nodes.map (·.id)).Nodup)
    (hn : n ∈ candidates catalog g) (m : Model α) :
    (planOf catalog g m).node? n.id = some n := by
  obtain ⟨hmem, hlayer⟩ := mem_filter.mp hn
  rw [node?_planOf hids, known?]
  refine find?_of_unique hmem ?_ fun n' hn' hfound => ?_
  · rw [beq_self_eq_true, contains_of_isComputational hlayer, Bool.and_self]
  · rw [Bool.and_eq_true] at hfound
    exact inj_on_of_nodup_map hids hn' hmem (eq_of_beq hfound.1)

/-- The schedule lists the nodes that are to become layers. -/
theorem order_perm_candidates (hids : (g.nodes.map (·.id)).Nodup) :
    (scheduleFor catalog g).order ~ (candidates catalog g).map (·.id) := by
  have hnodup : ((candidates catalog g).map (·.id)).Nodup := hids.sublist (filter_sublist.map _)
  refine (perm_ext_iff_of_nodup (Schedule.nodup_order _ _ _) hnodup).mpr fun id => ?_
  rw [← layerNodes_eq_candidates hids]
  exact Schedule.mem_order

/-- No node is both of unknown type and to become a layer. -/
theorem nodup_unknownNodes_candidates (hids : (g.nodes.map (·.id)).Nodup) :
    ((unknownNodes catalog g.nodes).map (·.id) ++ (candidates catalog g).map (·.id)).Nodup := by
  have hknown : candidates catalog g <+ g.nodes.filter fun n => catalog.contains n.blockType :=
    monotone_filter_right _ fun _ => contains_of_isComputational
  have hall : g.nodes.filter (fun n => catalog.contains n.blockType) ++
      unknownNodes catalog g.nodes ~ g.nodes :=
    filter_append_perm (fun n => catalog.contains n.blockType) g.nodes
  rw [← map_append]
  exact ((perm_append_comm.trans hall).map (·.id)).nodup_iff.mpr hids |>.sublist
    ((Sublist.append_left hknown _).map _)

/-! ## Remarks -/

variable {α : Type}

/-- What a warning of a model is about. -/
inductive Remark where
  | unknownType (n : Node)
  | cycle
  | noKernel (n : Node)
  | unresolved (n : Node) (kind reason : String)
  | surplus (n : Node) (count : Nat)
  | mismatch (n : Node) (shapes : List TensorShape)

namespace Remark

/-- The warning. -/
def text : Remark → String
  | unknownType n => n.labelText ++ ": Unknown block type: " ++ n.blockType
  | cycle => "Cycle detected: layer order is best-effort"
  | noKernel n => n.labelText ++ ": " ++ n.blockType ++ " cannot be executed"
  | unresolved n kind reason => n.labelText ++ ": " ++ kind ++ ": " ++ reason
  | surplus n count => n.labelText ++ s!": ignoring {count} extra input(s)"
  | mismatch n shapes => n.labelText ++ ": adding mismatched shapes "
      ++ " + ".intercalate (shapes.map (·.describe))

/-- The node that a remark skips, if it skips one. -/
def skipped? : Remark → Option String
  | unknownType n | noKernel n | unresolved n _ _ => some n.id
  | cycle | surplus _ _ | mismatch _ _ => none

/-- A remark with a cause in the graph. -/
inductive Due (α : Type) [Scalar α] (catalog : Catalog) (g : Graph) : Remark → Prop
  | unknownType {n : Node} (hn : n ∈ unknownNodes catalog g.nodes) :
      Due α catalog g (.unknownType n)
  | cycle (hcycle : (scheduleFor catalog g).cycleDetected = true) : Due α catalog g .cycle
  | noKernel {n : Node} (hn : n ∈ candidates catalog g) (hk : Kernel.ofKind? n.blockType = none) :
      Due α catalog g (.noKernel n)
  | unresolved {n : Node} {k : Kernel} {d : BlockDefinition} {params : Entries}
      {shapes : List TensorShape} {kind reason : String} {r r' : Generator}
      (hn : n ∈ candidates catalog g) (hk : Kernel.ofKind? n.blockType = some k)
      (hd : catalog.get? n.blockType = some d)
      (hparams : d.effectiveParams n.params = .ok params)
      (hmade : (construct k params shapes : Draws (TensorShape × List (Weight α))).run r =
        (.error (.unresolvedShape kind reason), r')) :
      Due α catalog g (.unresolved n kind reason)
  | surplus {n : Node} {k : Kernel} {limit count : Nat} (hn : n ∈ candidates catalog g)
      (hk : Kernel.ofKind? n.blockType = some k) (hlimit : k.maxInputs? = some limit)
      (hcount : 0 < count) : Due α catalog g (.surplus n count)
  | mismatch {n : Node} {shapes : List TensorShape} (hn : n ∈ candidates catalog g)
      (hkind : n.blockType = Addition.kind)
      (hunlike : 1 < (shapes.map (·.sampleDims)).eraseDups.length) :
      Due α catalog g (.mismatch n shapes)

end Remark

/-! ## Going on with remarks -/

/-- A compilation goes on: it leaves remarks that are due, makes layers of the nodes of some ids,
and skips those nodes that the remarks skip. -/
structure Onward [Scalar α] (catalog : Catalog) (g : Graph) (p : Progress α)
    (remarks : List Remark) (made : List String) (p' : Progress α) : Prop where
  warnings : p'.warnings = p.warnings ++ remarks.map Remark.text
  skipped : p'.skipped = p.skipped ++ remarks.filterMap Remark.skipped?
  layers : p'.layers.map (·.id) = p.layers.map (·.id) ++ made
  due : ∀ r ∈ remarks, r.Due α catalog g

variable [Scalar α]

namespace Onward

variable {p p' p'' : Progress α} {remarks remarks' : List Remark} {made made' : List String}

/-- What leaves no remark and makes no layer. -/
theorem idle (hwarnings : p'.warnings = p.warnings) (hskipped : p'.skipped = p.skipped)
    (hlayers : p'.layers = p.layers) : Onward catalog g p [] [] p' :=
  ⟨by simp [hwarnings], by simp [hskipped], by simp [hlayers], by simp⟩

theorem trans (h : Onward catalog g p remarks made p')
    (h' : Onward catalog g p' remarks' made' p'') :
    Onward catalog g p (remarks ++ remarks') (made ++ made') p'' where
  warnings := by rw [h'.warnings, h.warnings, map_append, append_assoc]
  skipped := by rw [h'.skipped, h.skipped, filterMap_append, append_assoc]
  layers := by rw [h'.layers, h.layers, append_assoc]
  due := forall_mem_append.mpr ⟨h.due, h'.due⟩

end Onward

/-- The turn of a node: it becomes a layer, or a remark skips it, and never both. -/
def Settles (catalog : Catalog) (g : Graph) (p : Progress α) (id : String) (p' : Progress α) :
    Prop :=
  ∃ remarks made, Onward catalog g p remarks made p' ∧
    made ++ remarks.filterMap Remark.skipped? = [id]

/-- Steps that skip nothing and make no layer. -/
def Passes (catalog : Catalog) (g : Graph) (p p' : Progress α) : Prop :=
  ∃ remarks, Onward catalog g p remarks [] p' ∧ remarks.filterMap Remark.skipped? = []

theorem Passes.idle {p p' : Progress α} (hwarnings : p'.warnings = p.warnings)
    (hskipped : p'.skipped = p.skipped) (hlayers : p'.layers = p.layers) :
    Passes catalog g p p' :=
  ⟨[], .idle hwarnings hskipped hlayers, rfl⟩

theorem Passes.trans {p p' p'' : Progress α} (h : Passes catalog g p p')
    (h' : Passes catalog g p' p'') : Passes catalog g p p'' := by
  obtain ⟨remarks, hon, hnone⟩ := h
  obtain ⟨remarks', hon', hnone'⟩ := h'
  exact ⟨remarks ++ remarks', hon.trans hon', by rw [filterMap_append, hnone, hnone']; rfl⟩

theorem Passes.settles {p p' p'' : Progress α} {id : String} (h : Passes catalog g p p')
    (h' : Settles catalog g p' id p'') : Settles catalog g p id p'' := by
  obtain ⟨remarks, hon, hnone⟩ := h
  obtain ⟨remarks', made, hon', hone⟩ := h'
  exact ⟨remarks ++ remarks', made, hon.trans hon', by rw [filterMap_append, hnone]; exact hone⟩

theorem settles_skip {p : Progress α} {n : Node} {r : Remark} (hskips : r.skipped? = some n.id)
    (hdue : r.Due α catalog g) (entry : LogEntry) :
    Settles catalog g p n.id (p.skip n r.text entry) := by
  refine ⟨[r], [], ⟨rfl, ?_, ?_, ?_⟩, ?_⟩
  · simp [Progress.skip, hskips]
  · simp [Progress.skip]
  · simpa using hdue
  · simp [hskips]

theorem passes_remark {p p' : Progress α} {r : Remark} (hskips : r.skipped? = none)
    (hdue : r.Due α catalog g) (hwarnings : p'.warnings = p.warnings ++ [r.text])
    (hskipped : p'.skipped = p.skipped) (hlayers : p'.layers = p.layers) :
    Passes catalog g p p' := by
  refine ⟨[r], ⟨hwarnings, ?_, ?_, ?_⟩, ?_⟩
  · simp [hskipped, hskips]
  · simp [hlayers]
  · simpa using hdue
  · simp [hskips]

/-! ## The turn of a node -/

theorem addFeed_passes {plan : Plan} {p p' : Progress α} {feeds feeds' : List Feed} {c : Connection}
    (h : addFeed plan (p, feeds) c = .ok (p', feeds')) : Passes catalog g p p' := by
  simp only [addFeed] at h
  split at h
  · cases h
    exact .idle rfl rfl rfl
  · -- a known source is a layer, is to become one, or stands outside the model
    split at h
    · cases h
      exact .idle rfl rfl rfl
    · split at h
      · cases h
        exact .idle rfl rfl rfl
      · split at h
        · cases h
        · cases h
          exact .idle rfl rfl rfl
        · cases h
          exact .idle rfl rfl rfl

theorem feedsOf_passes {plan : Plan} {p p' : Progress α} {d : BlockDefinition} {n : Node}
    {feeds : List Feed} (h : feedsOf plan p d n = .ok (p', feeds)) : Passes catalog g p p' := by
  obtain ⟨⟨p₁, fed⟩, hfold, h⟩ := bind_eq_ok.mp h
  obtain ⟨rfl, -⟩ := Prod.mk.inj (Except.ok.inj h)
  exact foldlM_induction (P := fun _ x => Passes catalog g p x.1)
    (fun _ _ _ _ ha hb => ha.trans (addFeed_passes hb)) (.idle rfl rfl rfl) hfold

variable {k : Kernel}

theorem limitFeeds_passes (hn : n ∈ candidates catalog g) (hk : Kernel.ofKind? n.blockType = some k)
    (p : Progress α) (feeds : List Feed) : Passes catalog g p (limitFeeds k p n feeds).1 := by
  rw [limitFeeds]
  split
  · exact .idle rfl rfl rfl
  · rename_i limit hlimit
    split
    · exact .idle rfl rfl rfl
    · rename_i hmany
      have hcount : 0 < feeds.length - limit := by omega
      exact passes_remark (r := .surplus n (feeds.length - limit)) rfl
        (.surplus hn hk hlimit hcount) rfl rfl rfl

theorem noteMismatch_passes (hn : n ∈ candidates catalog g) (p : Progress α)
    (shapes : List TensorShape) : Passes catalog g p (noteMismatch p n shapes) := by
  rw [noteMismatch]
  split
  · rename_i hunlike
    rw [Bool.and_eq_true, beq_iff_eq, decide_eq_true_eq] at hunlike
    exact passes_remark (r := .mismatch n shapes) rfl (.mismatch hn hunlike.1 hunlike.2) rfl rfl rfl
  · exact .idle rfl rfl rfl

theorem addLayer_settles (hn : n ∈ candidates catalog g) (hk : Kernel.ofKind? n.blockType = some k)
    {d : BlockDefinition} (hd : catalog.get? n.blockType = some d) {params : Entries}
    (hparams : d.effectiveParams n.params = .ok params) {p p' : Progress α} {feeds : List Feed}
    (h : addLayer k p n params feeds = .ok p') : Settles catalog g p n.id p' := by
  simp only [addLayer] at h
  rcases hmade : (construct k params (feeds.map (·.2)) : Draws (_ × List (Weight α))).run
    p.generator with ⟨fault | ⟨shape, weights⟩, r⟩
  · simp only [hmade] at h
    split at h
    · rename_i kind reason hunresolved
      obtain rfl := Except.error.inj hunresolved
      obtain rfl := Except.ok.inj h
      have hdrawn : Passes catalog g p { p with generator := r } := .idle rfl rfl rfl
      exact hdrawn.settles <| settles_skip (r := .unresolved n kind reason) rfl
        (.unresolved hn hk hd hparams hmade) _
    · cases h
    · cases ‹Except.error fault = Except.ok _›
  · simp only [hmade] at h
    obtain rfl := Except.ok.inj h
    obtain ⟨remarks, hon, hnone⟩ :=
      noteMismatch_passes hn { p with generator := r } (feeds.map (·.2))
    refine ⟨remarks, [n.id], ⟨hon.warnings, hon.skipped, ?_, hon.due⟩, by rw [hnone]; rfl⟩
    have hlayers := hon.layers
    rw [append_nil] at hlayers
    rw [map_append, hlayers]
    rfl

/-- A node that is to become a layer is settled in its turn. -/
theorem place_settles {plan : Plan} (hcatalog : plan.catalog = catalog)
    (hnode : plan.node? n.id = some n) (hn : n ∈ candidates catalog g) {p p' : Progress α}
    (h : place plan p n.id = .ok p') : Settles catalog g p n.id p' := by
  obtain ⟨d, hd⟩ := exists_get?_of_isComputational (mem_filter.mp hn).2
  simp only [place, hnode, hcatalog, hd] at h
  cases hk : Kernel.ofKind? n.blockType with
  | none =>
      rw [hk] at h
      obtain rfl := Except.ok.inj h
      exact settles_skip (r := .noKernel n) rfl (.noKernel hn hk) _
  | some k =>
      rw [hk] at h
      obtain ⟨⟨p₁, feeds⟩, hfeeds, h⟩ := bind_eq_ok.mp h
      obtain ⟨params, hparams, h⟩ := bind_eq_ok.mp h
      rw [orStop_eq_ok] at hparams
      have hfed : Passes catalog g p (limitFeeds k p₁ n feeds).1 :=
        (feedsOf_passes hfeeds).trans (limitFeeds_passes hn hk p₁ feeds)
      exact hfed.settles (addLayer_settles hn hk hd hparams h)

/-! ## All nodes -/

/-- The remarks that come before all layers. -/
def openingRemarks (catalog : Catalog) (g : Graph) : List Remark :=
  (unknownNodes catalog g.nodes).map .unknownType ++
    if (scheduleFor catalog g).cycleDetected then [.cycle] else []

theorem skips_openingRemarks :
    (openingRemarks catalog g).filterMap Remark.skipped? =
      (unknownNodes catalog g.nodes).map (·.id) := by
  rw [openingRemarks, filterMap_append, filterMap_map]
  split <;> simp [Function.comp_def, Remark.skipped?]

theorem due_openingRemarks (α : Type) [Scalar α] :
    ∀ r ∈ openingRemarks catalog g, r.Due α catalog g := by
  rw [openingRemarks, forall_mem_append, forall_mem_map]
  refine ⟨fun n hn => .unknownType hn, ?_⟩
  split
  · rw [forall_mem_singleton]
    exact .cycle ‹_›
  · simp

theorem onward_start (r : Generator) (log : List LogEntry) :
    Onward catalog g (Progress.start r log [] [] : Progress α) (openingRemarks catalog g) []
      (Progress.start r log
        (((unknownNodes catalog g.nodes).map fun n =>
          n.labelText ++ ": Unknown block type: " ++ n.blockType) ++
            if (scheduleFor catalog g).cycleDetected
            then ["Cycle detected: layer order is best-effort"] else [])
        ((unknownNodes catalog g.nodes).map (·.id))) where
  warnings := by
    rw [openingRemarks, map_append, map_map]
    split <;> rfl
  skipped := skips_openingRemarks.symm
  layers := rfl
  due := due_openingRemarks α

/-- Every node that is to become a layer is settled when all had their turns. -/
theorem foldlM_place_settles (hids : (g.nodes.map (·.id)).Nodup) {m : Model α} {p p' : Progress α}
    (h : (scheduleFor catalog g).order.foldlM (place (planOf catalog g m)) p = .ok p') :
    ∃ remarks made, Onward catalog g p remarks made p' ∧
      made ++ remarks.filterMap Remark.skipped? ~ (scheduleFor catalog g).order := by
  have horder : (scheduleFor catalog g).order ~ (candidates catalog g).map (·.id) :=
    order_perm_candidates hids
  -- the invariant holds as long as those that had their turns are candidates
  refine foldlM_induction (P := fun done q => done ⊆ (candidates catalog g).map (·.id) →
    ∃ remarks made, Onward catalog g p remarks made q ∧
      made ++ remarks.filterMap Remark.skipped? ~ done) ?_ ?_ h horder.subset
  · intro done id a b ha hb hdone
    obtain ⟨hbefore, hid⟩ := append_subset.mp hdone
    obtain ⟨n, hn, rfl⟩ := mem_map.mp (hid mem_cons_self)
    obtain ⟨remarks, made, hon, hperm⟩ := ha hbefore
    obtain ⟨remarks', made', hon', hone⟩ := place_settles rfl (node?_candidate hids hn m) hn hb
    refine ⟨remarks ++ remarks', made ++ made', hon.trans hon', ?_⟩
    rw [filterMap_append, ← hone]
    refine Perm.trans ?_ (hperm.append_right _)
    simp only [append_assoc]
    exact (perm_append_comm_assoc _ _ _).append_left _
  · exact fun _ => ⟨[], [], .idle rfl rfl rfl, .nil⟩

/-- The account of a model. Of the nodes of a graph, those of unknown types and those that are to
become layers are layers or skipped, and no node twice. All warnings are remarks that are due, and
each skipped node is skipped by one of them. -/
structure Accounted (catalog : Catalog) (g : Graph) (m : Model α) (remarks : List Remark) :
    Prop where
  nodes : m.layers.map (·.id) ++ m.skippedNodes ~
    (unknownNodes catalog g.nodes).map (·.id) ++ (candidates catalog g).map (·.id)
  distinct : (m.layers.map (·.id) ++ m.skippedNodes).Nodup
  warnings : m.warnings = remarks.map Remark.text
  due : ∀ r ∈ remarks, r.Due α catalog g
  skips : remarks.filterMap Remark.skipped? = m.skippedNodes
  once : ∀ id ∈ m.skippedNodes, remarks.countP (·.skipped? == some id) = 1

theorem Completed.accounted {m : Model α} {r : Generator} {log : List LogEntry} {p : Progress α}
    (h : Completed catalog g m r log p) (hids : (g.nodes.map (·.id)).Nodup) :
    ∃ remarks, Accounted catalog g m remarks := by
  obtain ⟨remarks, made, hrest, hperm⟩ := foldlM_place_settles hids h.turns
  have hon := (onward_start r log).trans hrest
  have hmade : m.layers.map (·.id) = made := by
    rw [h.layers, hon.layers]
    rfl
  have hskips : m.skippedNodes =
      (openingRemarks catalog g ++ remarks).filterMap Remark.skipped? := by
    rw [h.skipped, hon.skipped]
    rfl
  have hnodes : m.layers.map (·.id) ++ m.skippedNodes ~
      (unknownNodes catalog g.nodes).map (·.id) ++ (candidates catalog g).map (·.id) := by
    rw [hmade, hskips, filterMap_append, skips_openingRemarks]
    refine (perm_append_comm_assoc _ _ _).trans (Perm.append_left _ ?_)
    exact hperm.trans (order_perm_candidates hids)
  have hdistinct := hnodes.nodup_iff.mpr (nodup_unknownNodes_candidates hids)
  refine ⟨openingRemarks catalog g ++ remarks, hnodes, hdistinct, ?_, hon.due, hskips.symm, ?_⟩
  · rw [h.warnings, hon.warnings]
    rfl
  · intro id hid
    rw [← count_filterMap, ← hskips]
    exact count_eq_one_of_mem (nodup_append.mp hdistinct).2.1 hid

/-- Compilation of a graph with distinct ids accounts for every node, however nodes are connected:
no node is lost, and none is counted twice. -/
theorem compile_accounted {seed : Value} {input : Option InputSpec} {m : Model α}
    (hids : (g.nodes.map (·.id)).Nodup) (h : (compile catalog seed g input).1 = .ok m) :
    ∃ remarks, Accounted catalog g m remarks := by
  obtain ⟨r, log, p, hp⟩ := compile_completed h
  exact hp.accounted hids

/-- A graph with a node of no known type, a pool that is larger than its input, and a cycle. -/
def faulty : Graph :=
  let node (id blockType : String) (params : Entries) : Node :=
    ⟨id, blockType, params, .null, false, .null, []⟩
  let edge (source target : String) : Connection :=
    ⟨.null, source, .text "output", target, .text "input", .null, .null, []⟩
  { nodes := [node "act" "Activation" [], node "gate" "Teleport" [], node "loss" "MSE" [],
      node "pool" "MaxPooling2D" [(.text "pool_size", .int 8)], node "flat" "Flatten" []]
    connections := [edge "act" "flat", edge "gate" "pool", edge "flat" "act",
      edge "pool" "loss"] }

theorem compile_accounted_faulty :
    (faulty.nodes.map (·.id)).Nodup ∧ ∃ (m : Model Float) (remarks : List Remark),
      (compile Stock.catalog (.int 0) faulty
        (some (.sizes (.list [.int 4, .int 4, .int 1])))).1 = .ok m ∧
      m.layers.map (·.id) = ["flat", "act"] ∧ m.skippedNodes = ["gate", "pool"] ∧
      m.warnings = ["Teleport: Unknown block type: Teleport",
        "Cycle detected: layer order is best-effort",
        "MaxPooling2D: MaxPooling2D: pool_size 8 exceeds input 4x4"] ∧
      Accounted Stock.catalog faulty m remarks := by
  have hids : (faulty.nodes.map (·.id)).Nodup := by decide
  have hrun : ((compile Stock.catalog (.int 0) faulty
      (some (.sizes (.list [.int 4, .int 4, .int 1])))).1.toOption.map fun m : Model Float =>
        (m.layers.map (·.id), m.skippedNodes, m.warnings)) =
      some (["flat", "act"], ["gate", "pool"], ["Teleport: Unknown block type: Teleport",
        "Cycle detected: layer order is best-effort",
        "MaxPooling2D: MaxPooling2D: pool_size 8 exceeds input 4x4"]) := by
    decide +kernel
  obtain ⟨m, hm, hfacts⟩ := Option.map_eq_some_iff.mp hrun
  obtain ⟨hlayers, hrest⟩ := Prod.mk.inj hfacts
  obtain ⟨hskipped, hwarnings⟩ := Prod.mk.inj hrest
  have hok := toOption_eq_some.mp hm
  obtain ⟨remarks, haccount⟩ := compile_accounted hids hok
  exact ⟨hids, m, remarks, hok, hlayers, hskipped, hwarnings, haccount⟩

end BlockNet.Compilation
