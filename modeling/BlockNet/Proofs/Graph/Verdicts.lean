import BlockNet.Graph.Validation
import BlockNet.Proofs.Catalog.Coercion
import BlockNet.Proofs.Fault.Work
import BlockNet.Proofs.Layer.Settings
import BlockNet.Proofs.Shape.Settled

/-! # Checking connections comes to a verdict

A problem with a connection is an answer. A check needs the settings of the source and the shape that
they give; with the stock blocks the shape is always there when the settings are, so a check fails
only where a number is beyond all doubles. -/

namespace BlockNet

/-! ## Names of settings -/

namespace Entries

/-- All keys are names. -/
def TextKeys (entries : Entries) : Prop := ∀ e ∈ entries, ∃ name : String, e.1 = .text name

theorem TextKeys.sortable {entries : Entries} (h : entries.TextKeys) :
    entries.sortable = true := by
  induction entries with
  | nil => rfl
  | cons e rest ih =>
      obtain ⟨key, value⟩ := e
      obtain ⟨⟨name, rfl⟩, hrest⟩ := List.forall_mem_cons.mp h
      rw [Entries.sortable, Bool.and_eq_true, List.all_eq_true]
      refine ⟨fun e' he' => ?_, ih hrest⟩
      obtain ⟨name', hname'⟩ := hrest e' he'
      rw [hname']
      rfl

theorem TextKeys.set {entries : Entries} (h : entries.TextKeys) (name : String) (value : Value) :
    (entries.set name value).TextKeys := by
  induction entries with
  | nil =>
      rintro e he
      rw [List.mem_singleton.mp he]
      exact ⟨name, rfl⟩
  | cons e rest ih =>
      obtain ⟨hkey, hrest⟩ := List.forall_mem_cons.mp h
      rw [Entries.set]
      split
      · exact List.forall_mem_cons.mpr ⟨hkey, hrest⟩
      · exact List.forall_mem_cons.mpr ⟨hkey, ih hrest⟩

theorem TextKeys.merge {entries more : Entries} (h : entries.TextKeys) (hmore : more.TextKeys) :
    (entries.merge more).TextKeys := by
  induction more generalizing entries with
  | nil => exact h
  | cons e more ih =>
      obtain ⟨⟨name, hname⟩, hrest⟩ := List.forall_mem_cons.mp hmore
      rw [Entries.merge, List.foldl_cons, hname]
      exact ih (h.set name e.2) hrest

end Entries

namespace BlockDefinition

variable {d : BlockDefinition}

theorem defaults_textKeys (hd : ∀ spec ∈ d.parameters, ∃ name : String, spec.name = .text name)
    {params : Entries} (h : d.defaults = .ok params) : params.TextKeys := by
  rw [defaults] at h
  split at h
  · obtain rfl := Except.ok.inj h
    refine Entries.TextKeys.merge (by simp [Entries.TextKeys]) ?_
    intro e he
    obtain ⟨spec, hspec, rfl⟩ := List.mem_map.mp he
    exact hd spec hspec
  · cases h

theorem effectiveParams_textKeys
    (hd : ∀ spec ∈ d.parameters, ∃ name : String, spec.name = .text name)
    {overrides params : Entries} (htext : overrides.TextKeys)
    (h : d.effectiveParams overrides = .ok params) : params.TextKeys := by
  obtain ⟨defaults, hdefaults, h⟩ := bind_eq_ok.mp h
  refine foldlM_induction (P := fun done p => Entries.TextKeys done → p.TextKeys) ?_
    (fun _ => defaults_textKeys hd hdefaults) h htext
  intro done e p p' hp hstep hdone
  obtain ⟨hbefore, he⟩ := List.forall_mem_append.mp hdone
  obtain ⟨name, hname⟩ := List.forall_mem_singleton.mp he
  obtain ⟨w, -, hstep⟩ := bind_eq_ok.mp hstep
  obtain rfl := Except.ok.inj hstep
  rw [hname]
  exact (hp hbefore).set name w

end BlockDefinition

theorem Stock.textParams {t : String} {d : BlockDefinition} (h : Stock.catalog.get? t = some d) :
    ∀ spec ∈ d.parameters, ∃ name : String, spec.name = .text name := by
  have hall : ∀ d ∈ Stock.definitions, ∀ spec ∈ d.parameters,
      spec.name.sameKey (.text spec.name.plain) = true := by
    decide +kernel
  intro spec hspec
  exact ⟨_, Value.sameKey_text.mp (hall d (List.mem_of_find?_eq_some h) spec hspec)⟩

/-! ## Shapes -/

theorem TensorShape.exists_pooled (s : TensorShape) {pool : Nat} (hpool : 0 < pool)
    (index : Nat) : ∃ s', s.pooled pool index = .ok s' := by
  rw [pooled]
  split
  · rename_i n hn
    have hlt := (List.getElem?_eq_some_iff.mp hn).1
    rw [if_neg (by omega), ← Int.ofNat_fdiv]
    exact exists_withSize (position?_natCast hlt) _
  · exact ⟨s, rfl⟩

/-- With the settings of a stock block its rule gives a shape, whatever enters. -/
theorem Stock.exists_shapeRule {t : String} {d : BlockDefinition} (hd : catalog.get? t = some d)
    {overrides params : Entries} (hparams : d.effectiveParams overrides = .ok params)
    (base : TensorShape) : ∃ s, shapeRule t params base = .ok s := by
  have hfit : ∀ k : Kernel, t = k.kind → params.Fit k.settings :=
    fun k hk => Kernel.fit_settings (hk ▸ hd) hparams
  have hunits : ∀ n : Nat, base.rank ≠ 0 → ∃ s, base.withSize (-1) n = .ok s :=
    fun n hrank => TensorShape.exists_withSize (TensorShape.position?_last hrank) n
  have hlast : ∀ i n : Nat, i < base.rank → ∃ s, base.withSize i n = .ok s :=
    fun i n hi => TensorShape.exists_withSize (TensorShape.position?_natCast hi) n
  -- a rule is for one axis, and the schemas hold the sizes that it asks for
  unfold shapeRule
  split
  · split
    · exact ⟨base, rfl⟩
    · obtain ⟨n, -, hn⟩ := (hfit .dense rfl).size (.head _)
      rw [hn]
      exact hunits n ‹_›
  · split
    · exact ⟨base, rfl⟩
    · obtain ⟨n, -, hn⟩ := (hfit .recurrent rfl).size (.head _)
      rw [hn]
      exact hunits n ‹_›
  · split
    · exact ⟨base, rfl⟩
    · obtain ⟨n, -, hn⟩ := (hfit .convolution rfl).size (.head _)
      rw [hn]
      exact hlast 3 n (by omega)
  · split
    · exact ⟨base, rfl⟩
    · obtain ⟨n, hpos, hn⟩ := (hfit .pooling rfl).size (.head _)
      obtain ⟨s, hs⟩ := base.exists_pooled hpos 1
      rw [hn, ok_bind, hs, ok_bind]
      exact s.exists_pooled hpos 2
  · split
    · exact ⟨base, rfl⟩
    · obtain ⟨n, -, hn⟩ := (hfit .attention rfl).size (.tail _ (.head _))
      rw [hn]
      exact hlast 2 n (by omega)
  · exact ⟨base, rfl⟩

/-! ## Verdicts -/

theorem BlockDefinition.exists_outputTemplate {d : BlockDefinition} {port : Value}
    (h : (d.outputPort? port).isSome) : ∃ s, d.outputTemplate port = .ok s := by
  unfold BlockDefinition.outputTemplate
  split
  · rw [BlockDefinition.outputPort?, ‹d.outputs = []›] at h
    cases h
  · exact ⟨_, rfl⟩
  · obtain ⟨output, h⟩ := Option.isSome_iff_exists.mp h
    rw [h]
    exact ⟨_, rfl⟩

/-- The shape at an output port of a stock block is there if the settings are. -/
theorem Stock.inferOutputShape_eq_ok {source : Node} {d : BlockDefinition} {port : Value}
    {params : Entries} (hd : catalog.get? source.blockType = some d)
    (hport : (d.outputPort? port).isSome) (htext : source.params.TextKeys)
    (hparams : d.effectiveParams source.params = .ok params) :
    ∃ s, inferOutputShape catalog source port none = .ok s := by
  obtain ⟨template, htemplate⟩ := d.exists_outputTemplate hport
  have hsortable := (d.effectiveParams_textKeys (textParams hd) htext hparams).sortable
  have hcall : source.ruleCall catalog port none = .ok ⟨source.blockType, params, template⟩ := by
    rw [Node.ruleCall, Catalog.require, hd]
    simp only [ok_bind, htemplate, hparams]
  rw [inferOutputShape, hcall, ok_bind, RuleCall.shape, if_pos hsortable]
  exact exists_shapeRule hd hparams template

/-- A fault in the settings is one at the port. -/
theorem Stock.inferOutputShape_eq_error {source : Node} {d : BlockDefinition} {port : Value}
    {fault : Fault} (hd : catalog.get? source.blockType = some d)
    (hport : (d.outputPort? port).isSome)
    (hparams : d.effectiveParams source.params = .error fault) :
    inferOutputShape catalog source port none = .error fault := by
  obtain ⟨template, htemplate⟩ := d.exists_outputTemplate hport
  have hcall : source.ruleCall catalog port none = .error fault := by
    rw [Node.ruleCall, Catalog.require, hd]
    simp only [ok_bind, htemplate, hparams]
    rfl
  rw [inferOutputShape, hcall]
  rfl

/-- A connection that is judged by the shape its source produces: both ends are there, of known
types, and have the ports. -/
structure Judged (catalog : Catalog) (nodes : List Node) (c : Connection) (source : Node)
    (d : BlockDefinition) : Prop where
  node : lastNode? nodes c.source = some source
  definition : catalog.get? source.blockType = some d
  output : (d.outputPort? c.sourcePort).isSome
  target : ∃ target e, lastNode? nodes c.target = some target ∧
    catalog.get? target.blockType = some e ∧ (e.inputPort? c.targetPort).isSome

variable {catalog : Catalog} {nodes : List Node} {c : Connection} {fault : Fault}

/-- What is wrong with the verdict on a connection, if it is refused. -/
def Verdict.issue? (c : Connection) (source target : Node) : Verdict → Option Issue
  | .accepted .. => none
  | .refused code message index =>
      some ⟨c.id, source.displayLabel, target.displayLabel, code, message, index⟩

theorem connectionIssue_eq {source target : Node} (hsource : lastNode? nodes c.source = some source)
    (htarget : lastNode? nodes c.target = some target) :
    connectionIssue catalog nodes c =
      (validateConnection catalog source c.sourcePort target c.targetPort).map
        (Verdict.issue? c source target) := by
  simp only [connectionIssue, hsource, htarget]
  cases validateConnection catalog source c.sourcePort target c.targetPort with
  | error fault => rfl
  | ok verdict => cases verdict <;> rfl

theorem validateConnection_eq {source target : Node} {port port' : Value} {d e : BlockDefinition}
    (hd : catalog.get? source.blockType = some d) (he : catalog.get? target.blockType = some e)
    (houtput : (d.outputPort? port).isSome) {expected : Port}
    (hinput : e.inputPort? port' = some expected) :
    validateConnection catalog source port target port' =
      (inferred catalog source port).map fun r =>
        match r with
        | .ok produced => judgeShapes produced expected.shape
        | .error text => .refused .invalidParameter text none := by
  obtain ⟨output, houtput⟩ := Option.isSome_iff_exists.mp houtput
  simp only [validateConnection, hd, he, houtput, hinput]
  cases inferred catalog source port with
  | error fault => rfl
  | ok r => cases r <;> rfl

/-- A connection of unknown types or ports is refused, and every other is judged by the shape that
its source produces. -/
theorem validateConnection_cases (source : Node) (port : Value) (target : Node) (port' : Value) :
    (∃ code message, validateConnection catalog source port target port' =
      .ok (.refused code message none)) ∨
    ∃ d e, catalog.get? source.blockType = some d ∧ catalog.get? target.blockType = some e ∧
      (d.outputPort? port).isSome ∧ (e.inputPort? port').isSome := by
  rw [validateConnection]
  split
  · exact .inl ⟨_, _, rfl⟩
  · exact .inl ⟨_, _, rfl⟩
  · rename_i d e hd he
    split
    · exact .inl ⟨_, _, rfl⟩
    · exact .inl ⟨_, _, rfl⟩
    · rename_i houtput hinput
      exact .inr ⟨d, e, hd, he, by rw [houtput]; rfl, by rw [hinput]; rfl⟩

/-- A connection fails to be judged just when the shape at its source fails to be inferred. -/
theorem connectionIssue_eq_error : connectionIssue catalog nodes c = .error fault ↔
    ∃ source d, Judged catalog nodes c source d ∧
      inferred catalog source c.sourcePort = .error fault := by
  constructor
  · intro h
    cases hsource : lastNode? nodes c.source with
    | none => simp [connectionIssue, hsource] at h
    | some source =>
        cases htarget : lastNode? nodes c.target with
        | none => simp [connectionIssue, hsource, htarget] at h
        | some target =>
            rw [connectionIssue_eq hsource htarget] at h
            rcases validateConnection_cases source c.sourcePort target c.targetPort with
              ⟨code, message, hrefused⟩ | ⟨d, e, hd, he, houtput, hinput⟩
            · rw [hrefused] at h
              cases h
            · obtain ⟨expected, hexpected⟩ := Option.isSome_iff_exists.mp hinput
              rw [validateConnection_eq hd he houtput hexpected] at h
              refine ⟨source, d, ⟨hsource, hd, houtput, target, e, htarget, he, hinput⟩, ?_⟩
              cases hr : inferred catalog source c.sourcePort with
              | error f =>
                  rw [hr] at h
                  exact congrArg Except.error (Except.error.inj h)
              | ok r =>
                  rw [hr] at h
                  cases h
  · rintro ⟨source, d, hjudged, hfault⟩
    obtain ⟨target, e, htarget, he, hinput⟩ := hjudged.target
    obtain ⟨expected, hinput⟩ := Option.isSome_iff_exists.mp hinput
    rw [connectionIssue_eq hjudged.node htarget,
      validateConnection_eq hjudged.definition he hjudged.output hinput, hfault]
    rfl

/-- With the stock blocks the shape at a source fails to be inferred just when a number overflows. -/
theorem Judged.inferred_eq_error {source : Node} {d : BlockDefinition}
    (h : Judged Stock.catalog nodes c source d) (htext : source.params.TextKeys) :
    inferred Stock.catalog source c.sourcePort = .error fault ↔
      fault = .mishap .tooLarge ∧ d.Overflows source.params := by
  have hd := Stock.readable h.definition
  rw [inferred]
  constructor
  · intro hfault
    cases hparams : d.effectiveParams source.params with
    | ok params =>
        obtain ⟨s, hs⟩ := Stock.inferOutputShape_eq_ok h.definition h.output htext hparams
        rw [hs] at hfault
        cases hfault
    | error f =>
        rw [Stock.inferOutputShape_eq_error h.definition h.output hparams] at hfault
        rcases BlockDefinition.effectiveParams_eq_error hd hparams with
          ⟨rfl, hover⟩ | ⟨spec, -, reason, rfl⟩
        · exact ⟨(Except.error.inj hfault).symm, hover⟩
        · cases hfault
  · rintro ⟨rfl, hover⟩
    rw [Stock.inferOutputShape_eq_error h.definition h.output
      (BlockDefinition.effectiveParams_overflow hd hover)]

/-! ## Reports -/

/-- A layer of so many units that feeds another one. -/
def unitsInto (units : Value) : Graph where
  nodes := [⟨"wide", "Dense", [(.text "units", units)], .null, false, .null, []⟩,
    ⟨"out", "Dense", [], .null, false, .null, []⟩]
  connections := [⟨.text "e1", "wide", .text "output", "out", .text "input", .null, .null, []⟩]

theorem unitsInto_textKeys (units : Value) : ∀ n ∈ (unitsInto units).nodes, n.params.TextKeys := by
  simp [unitsInto, Entries.TextKeys]

end BlockNet
