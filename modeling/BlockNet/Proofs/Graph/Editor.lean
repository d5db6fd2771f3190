import BlockNet.Proofs.Graph.Reload
import BlockNet.Proofs.Value.Equal

/-! # Documents of the editor

What the editor writes is written back as it came, with every further entry of a node, of its `data`
and of an edge. Only what stands in the `data` of an edge beside the verdict is lost. -/

namespace BlockNet

open List Entries

/-- A node as the editor writes it. -/
structure Node.Written (payload data : Entries) : Prop where
  named : payload.Named
  id : ∃ s : String, payload.get? "id" = some (.text s)
  position : payload.get? "position" ≠ some .null
  data_eq : payload.get? "data" = some (.dict data)
  dataNamed : data.Named
  blockType : ∃ s : String, data.get? "blockType" = some (.text s)
  parameters : ∃ params, data.get? "parameters" = some (.dict params)
  label : data.get? "label" ≠ some .null
  isSource : ∀ v, data.get? "isSource" = some v → v = .bool true

/-- The names in the `data` of an edge that tell its verdict. -/
def Connection.verdictNames : List String := ["isValid", "error"]

/-- An edge as the editor writes it, with or without `data`. -/
structure Connection.Written (payload : Entries) (data? : Option Entries) : Prop where
  named : payload.Named
  id : ∃ s : String, payload.get? "id" = some (.text s) ∧ s ≠ ""
  source : ∃ s : String, payload.get? "source" = some (.text s)
  sourceHandle : ∃ s : String, payload.get? "sourceHandle" = some (.text s)
  target : ∃ s : String, payload.get? "target" = some (.text s)
  targetHandle : ∃ s : String, payload.get? "targetHandle" = some (.text s)
  data_eq : payload.get? "data" = data?.map .dict
  dataNamed : ∀ data ∈ data?, data.Named
  isValid : ∀ data ∈ data?, ∃ v, data.get? "isValid" = some v ∧ v ≠ .null
  error : ∀ data ∈ data?, ∀ v, data.get? "error" = some v → v.truthy = true

namespace Node

theorem given?_getD_null {value : Option Value} (h : value ≠ some .null) :
    (value.getD .null).given? = value := by
  rcases value with _ | v
  · rfl
  · exact Value.given?_of_ne fun hv => h (congrArg some hv)

variable {n : Node} {payload data : Entries}

/-- What the fields of a node are when it is read from the editor. -/
structure Reads (n : Node) (payload data : Entries) : Prop where
  id : payload.get? "id" = some (.text n.id)
  blockType : data.get? "blockType" = some (.text n.blockType)
  parameters : data.get? "parameters" = some (.dict n.params)
  label : n.label = data.getNull "label"
  isSource : n.isSource = (data.getNull "isSource").truthy
  position : n.position = payload.getNull "position"
  extra : n.extra = extraOf payload data

theorem Written.ofValue (h : Written payload data) :
    ∃ n : Node, ofValue (.dict payload) = .ok n ∧ n.Reads payload data := by
  obtain ⟨id, hid⟩ := h.id
  obtain ⟨blockType, hblock⟩ := h.blockType
  obtain ⟨params, hparams⟩ := h.parameters
  have hparamsOf : paramsOf (data.getNull "parameters") = .ok params := by
    rw [getNull, hparams]
    cases params <;> rfl
  exact ⟨_, ofValue_editor h.data_eq hid hblock hparamsOf, hid, hblock, hparams, rfl, rfl, rfl, rfl⟩

theorem Written.isSource_eq (h : Written payload data) (hn : n.Reads payload data) :
    (if n.isSource then some (Value.bool true) else none) = data.get? "isSource" := by
  rw [hn.isSource, getNull]
  cases hsource : data.get? "isSource" with
  | none => rfl
  | some v =>
      obtain rfl := h.isSource v hsource
      rfl

/-- The `data` of a node is written back but for the order of its names. -/
theorem Written.dataEntries_perm (h : Written payload data) (hn : n.Reads payload data) :
    n.dataEntries ~ data := by
  have hkeeps := keeps_ofEditor h.named hn.extra
  have hfields := h.dataNamed.perm_fields dataNames (by simp [dataNames])
  simp only [dataNames, flatMap_cons, flatMap_nil, append_nil] at hfields
  refine Perm.trans ?_ hfields.symm
  rw [hkeeps.dataEntries, ← hn.blockType, ← hn.parameters, hn.label, getNull,
    given?_getD_null h.label, h.isSource_eq hn]
  simp only [append_assoc, dataNames]
  refine perm_append_comm.trans ?_
  simp only [append_assoc]
  exact (perm_append_comm_assoc _ _ _).append_left _

/-- A node is written back as the editor wrote it. -/
theorem Written.toValue_equal (h : Written payload data) (hn : n.Reads payload data) :
    n.toValue.equal true (.dict payload) = true := by
  have hkeeps := keeps_ofEditor h.named hn.extra
  have hfields := h.named.perm_fields fieldNames (by simp [fieldNames])
  simp only [fieldNames, flatMap_cons, flatMap_nil, append_nil, h.data_eq] at hfields
  have hdata : (Value.dict n.dataEntries).equal true (.dict data) = true :=
    Value.equal_dict_of_perm h.dataNamed (h.dataEntries_perm hn)
  have hself : ∀ es : Entries, Forall₂ (fun e f => e.2.equal true f.2 = true) es es :=
    fun es => forall₂_same.mpr fun e _ => Value.equal_self e.2
  rw [hkeeps.toValue, ← hn.id, hn.position, getNull, given?_getD_null h.position]
  refine (Value.equal_dict_iff_of_perm (Perm.refl _) hfields.symm (h.named.perm hfields) ?_).mpr ?_
  · simp [field, fieldNames]
  · simp only [append_assoc]
    refine rel_append (hself _) (rel_append (hself _) (rel_append (hself _) ?_))
    exact .cons hdata (hself _)

end Node

namespace Connection

variable {c : Connection} {payload data : Entries} {data? : Option Entries}

/-- What the fields of a connection are when it is read from the editor. -/
structure Reads (c : Connection) (payload data : Entries) : Prop where
  id : payload.get? "id" = some c.id
  source : payload.get? "source" = some (.text c.source)
  sourceHandle : payload.get? "sourceHandle" = some c.sourcePort
  target : payload.get? "target" = some (.text c.target)
  targetHandle : payload.get? "targetHandle" = some c.targetPort
  isValid : c.isValid = data.getNull "isValid"
  error : c.error = data.getNull "error"
  extra : c.extra = Node.others payload fieldNames

theorem Written.ofValue (h : Written payload data?) : ∃ c : Connection,
    ofValue (.dict payload) = .ok c ∧ c.Regular ∧ c.Reads payload (data?.getD []) := by
  obtain ⟨id, hid, hne⟩ := h.id
  obtain ⟨source, hsource⟩ := h.source
  obtain ⟨port, hport⟩ := h.sourceHandle
  obtain ⟨target, htarget⟩ := h.target
  obtain ⟨port', hport'⟩ := h.targetHandle
  have hdata : ((payload.getNull "data").orElse (.dict [])).members = .ok (data?.getD []) := by
    rw [getNull, h.data_eq]
    rcases data? with _ | _ | ⟨e, data⟩ <;> rfl
  have htruthy : (Value.text id).truthy = true := by simpa [Value.truthy] using hne
  have hread := ofValue_editor hdata hid htruthy hsource hport htarget hport'
  exact ⟨_, hread, regular_of_ofDict h.named hread, hid, hsource, hport, htarget, hport', rfl, rfl, rfl⟩

theorem Written.isValid_given (h : Written payload (some data)) (hc : c.Reads payload data) :
    ∃ v, data.get? "isValid" = some v ∧ c.isValid.given? = some v := by
  obtain ⟨v, hv, hne⟩ := h.isValid data rfl
  refine ⟨v, hv, ?_⟩
  rw [hc.isValid, getNull, hv]
  exact Value.given?_of_ne hne

/-- Of the `data` of an edge the verdict is written back. -/
theorem Written.perm_verdictData (h : Written payload (some data)) (hc : c.Reads payload data) :
    data ~ c.verdictData ++ Node.others data verdictNames := by
  obtain ⟨v, hv, hgiven⟩ := h.isValid_given hc
  have herror : c.saved.error.given? = data.get? "error" := by
    rw [saved, hgiven, hc.error, getNull]
    cases herror : data.get? "error" with
    | none => rfl
    | some e =>
        have htruthy := h.error data rfl e herror
        simp [Value.orElse, htruthy, Value.given?_of_truthy]
  have hfields := (h.dataNamed data rfl).perm_fields verdictNames (by simp [verdictNames])
  simpa [verdictData, hv, hgiven, herror, verdictNames] using hfields

theorem Written.verdict_equal_iff (h : Written payload (some data)) (hc : c.Reads payload data) :
    (Value.dict c.verdictData).equal true (.dict data) = true ↔
      Node.others data verdictNames = [] := by
  have hperm : data ~ c.verdictData ++ Node.others data verdictNames := h.perm_verdictData hc
  constructor
  · intro hequal
    have hlength := (Value.equal_dict_iff.mp hequal).1
    rw [hperm.length_eq, length_append] at hlength
    exact length_eq_zero_iff.mp (by omega)
  · intro hnone
    rw [hnone, append_nil] at hperm
    exact Value.equal_dict_of_perm (h.dataNamed data rfl) hperm.symm

theorem Written.perm_payload (h : Written payload data?) (hc : c.Reads payload data) :
    payload ~ field "data" (data?.map .dict) ++ (c.ends ++ c.extra) := by
  have hnames : ∀ name, name ∈ ["data", "id", "source", "sourceHandle", "target", "targetHandle"] ↔
      name ∈ fieldNames := by
    intro name
    simp [fieldNames]
    tauto
  have hfields := h.named.perm_fields
    ["data", "id", "source", "sourceHandle", "target", "targetHandle"] (by simp)
  rw [others_congr hnames, ← hc.extra] at hfields
  simpa [ends, h.data_eq, hc.id, hc.source, hc.sourceHandle, hc.target, hc.targetHandle]
    using hfields

/-- An edge is written back as the editor wrote it just when its `data` holds nothing but the
verdict. -/
theorem Written.toValue_equal_iff (h : Written payload data?)
    (hc : c.Reads payload (data?.getD [])) (hregular : c.Regular) :
    c.toValue.equal true (.dict payload) = true ↔
      ∀ data ∈ data?, Node.others data verdictNames = [] := by
  have hpayload := h.perm_payload hc
  have hentries : ∀ value, field "data" value ++ (c.ends ++ c.extra) ~
      c.ends ++ field "data" value ++ c.extra := by
    intro value
    rw [append_assoc]
    exact perm_append_comm_assoc _ _ _
  rw [hregular.toValue]
  cases data? with
  | none =>
      have hverdict : c.verdictData = [] := by
        simp [verdictData, saved, hc.isValid, getNull, field]
      rw [hverdict]
      simpa using Value.equal_dict_of_perm h.named ((hentries none).symm.trans hpayload.symm)
  | some data =>
      obtain ⟨v, hv, hgiven⟩ := h.isValid_given hc
      have hverdict : c.verdictData.isEmpty = false := by simp [verdictData, field, hgiven]
      rw [hverdict, Value.equal_dict_iff_of_perm (hentries _) hpayload.symm (h.named.perm hpayload)
        (by simp [field])]
      simp [field, h.verdict_equal_iff hc, Value.equal_self]

end Connection

namespace Snapshot

/-- A document of the editor, with the entries of its nodes and of its edges. -/
structure Written (document : Value) (nodes edges : List Entries) : Prop where
  entries : ∃ entries, document = .dict entries ∧
    [(.text "nodes", .list (nodes.map .dict)), (.text "edges", .list (edges.map .dict))] ~ entries
  ids : (nodes.map (Entries.get? · "id")).Nodup
  nodes : ∀ payload ∈ nodes, ∃ data, Node.Written payload data
  edges : ∀ payload ∈ edges, ∃ data?, Connection.Written payload data?

/-- Something stands in the `data` of an edge beside the verdict. -/
def Unsaved (payload : Entries) : Prop :=
  ∃ data, payload.get? "data" = some (.dict data) ∧ Node.others data Connection.verdictNames ≠ []

/-- A node is read from a payload and written back as it. -/
structure NodeKept (payload : Entries) (n : Node) : Prop where
  read : Node.ofValue (.dict payload) = .ok n
  id : payload.get? "id" = some (.text n.id)
  equal : n.toValue.equal true (.dict payload) = true

/-- A connection is read from a payload, and written back as it unless something is lost. -/
structure EdgeKept (payload : Entries) (c : Connection) : Prop where
  read : Connection.ofValue (.dict payload) = .ok c
  equal_iff : c.toValue.equal true (.dict payload) = true ↔ ¬Unsaved payload

variable {document : Value} {nodes edges : List Entries}

theorem exists_nodes (h : ∀ payload ∈ nodes, ∃ data, Node.Written payload data) :
    ∃ ns, Forall₂ NodeKept nodes ns := by
  induction nodes with
  | nil => exact ⟨[], .nil⟩
  | cons payload rest ih =>
      obtain ⟨⟨data, hwritten⟩, hrest⟩ := forall_mem_cons.mp h
      obtain ⟨n, hread, hn⟩ := hwritten.ofValue
      obtain ⟨ns, hns⟩ := ih hrest
      exact ⟨n :: ns, .cons ⟨hread, hn.id, hwritten.toValue_equal hn⟩ hns⟩

theorem exists_connections (h : ∀ payload ∈ edges, ∃ data?, Connection.Written payload data?) :
    ∃ cs, Forall₂ EdgeKept edges cs := by
  induction edges with
  | nil => exact ⟨[], .nil⟩
  | cons payload rest ih =>
      obtain ⟨⟨data?, hwritten⟩, hrest⟩ := forall_mem_cons.mp h
      obtain ⟨c, hread, hregular, hc⟩ := hwritten.ofValue
      obtain ⟨cs, hcs⟩ := ih hrest
      refine ⟨c :: cs, .cons ⟨hread, ?_⟩ hcs⟩
      rw [hwritten.toValue_equal_iff hc hregular, Unsaved, hwritten.data_eq]
      cases data? <;> simp

theorem connections_equal_iff {cs : List Connection} (h : Forall₂ EdgeKept edges cs) :
    Forall₂ (fun c payload => c.toValue.equal true (.dict payload) = true) cs edges ↔
      ∀ payload ∈ edges, ¬Unsaved payload := by
  induction h with
  | nil => simp
  | cons hc _ ih => rw [forall₂_cons, forall_mem_cons, hc.equal_iff, ih]

theorem ids_eq {ns : List Node} (h : Forall₂ NodeKept nodes ns) :
    nodes.map (Entries.get? · "id") = (ns.map (·.id)).map fun id => some (.text id) := by
  rw [← forall₂_eq_eq_eq, List.map_map, forall₂_map_left_iff, forall₂_map_right_iff]
  exact h.imp fun _ _ hn => hn.id

/-- A document of the editor is read, and it is written back as it came just when the `data` of no
edge holds anything beside the verdict. -/
theorem Written.verbatim_iff (h : Written document nodes edges) : ∃ g, ofValue document = .ok g ∧
    (g.toValue.equal true document = true ↔ ∀ payload ∈ edges, ¬Unsaved payload) := by
  obtain ⟨ns, hns⟩ := exists_nodes h.nodes
  obtain ⟨cs, hcs⟩ := exists_connections h.edges
  obtain ⟨entries, rfl, hperm⟩ := h.entries
  have hnamed : Entries.Named [(.text "nodes", .list (nodes.map .dict)),
      (.text "edges", .list (edges.map .dict))] := by
    simp
  have hfound : ∀ e ∈ [(Value.text "nodes", Value.list (nodes.map .dict)),
      (.text "edges", .list (edges.map .dict))], e ∈ entries := fun e he => hperm.subset he
  simp only [forall_mem_cons] at hfound
  obtain ⟨hnodes, hedges, -⟩ := hfound
  have hids : (ns.map (·.id)).Nodup := .of_map _ (ids_eq hns ▸ h.ids)
  obtain ⟨g, hg, rfl, rfl⟩ := ofValue_document ((hnamed.perm hperm).get?_eq_some_iff.mpr hnodes)
    ((hnamed.perm hperm).get?_eq_some_iff.mpr hedges)
    (forall₂_map_left_iff.mpr (hns.imp fun _ _ hn => hn.read))
    (forall₂_map_left_iff.mpr (hcs.imp fun _ _ hc => hc.read)) hids
  refine ⟨g, hg, ?_⟩
  have hlist : (Value.list (g.nodes.map Node.toValue)).equal true
      (.list (nodes.map .dict)) = true := by
    rw [Value.equal_list_iff, forall₂_map_left_iff, forall₂_map_right_iff]
    exact hns.flip.imp fun n payload hn => hn.equal
  rw [toValue, Value.equal_dict_iff_of_perm (Perm.refl _) hperm hnamed (by simp)]
  simp only [forall₂_cons, hlist, true_and, forall₂_nil_left_iff, and_true]
  rw [Value.equal_list_iff, forall₂_map_left_iff, forall₂_map_right_iff]
  exact connections_equal_iff hcs

/-! ### An annotated document -/

/-- The `data` of a node with a further entry. -/
def notedData : Entries :=
  [(.text "blockType", .text "Dense"), (.text "note", .text "first"),
    (.text "parameters", .dict [(.text "units", .int 3)]), (.text "isSource", .bool true)]

/-- The `data` of a node with a label. -/
def labelledData : Entries :=
  [(.text "parameters", .dict []), (.text "label", .text "Last"), (.text "blockType", .text "Dense")]

/-- Two nodes, one of which holds further entries. -/
def annotatedNodes : List Entries :=
  [[(.text "id", .text "in"), (.text "type", .text "mlBlock"), (.text "width", .int 120),
      (.text "data", .dict notedData)],
    [(.text "data", .dict labelledData), (.text "position", .dict [(.text "x", .int 0)]),
      (.text "id", .text "out")]]

/-- An edge between them with a further entry and given `data`. -/
def annotatedEdge (data : Entries) : Entries :=
  [(.text "id", .text "e1"), (.text "source", .text "in"), (.text "target", .text "out"),
    (.text "sourceHandle", .text "output"), (.text "targetHandle", .text "input"),
    (.text "animated", .bool true), (.text "data", .dict data)]

/-- The document of these. -/
def annotated (data : Entries) : Value :=
  .dict [(.text "edges", .list [.dict (annotatedEdge data)]),
    (.text "nodes", .list (annotatedNodes.map .dict))]

theorem written_annotated {data : Entries} (hnamed : data.Named)
    (hvalid : data.get? "isValid" = some (.bool true)) (herror : data.get? "error" = none) :
    Written (annotated data) annotatedNodes [annotatedEdge data] := by
  refine ⟨⟨_, rfl, Perm.swap _ _ _⟩, ?_, ?_, ?_⟩
  · simp [annotatedNodes]
  · simp only [annotatedNodes, forall_mem_cons]
    refine ⟨⟨notedData, ?_⟩, ⟨labelledData, ?_⟩, by simp⟩
    · constructor <;> simp [notedData]
    · constructor <;> simp [labelledData]
  · rw [forall_mem_singleton]
    refine ⟨some data, ?_⟩
    constructor <;> simp [annotatedEdge, hnamed, hvalid, herror]

/-- The `data` of an edge with a verdict alone. -/
def judgedData : Entries := [(.text "isValid", .bool true)]

/-- The `data` of an edge with a note beside the verdict. -/
def remarkedData : Entries := [(.text "isValid", .bool true), (.text "note", .text "later")]

/-- Further entries of nodes and edges are written back. -/
theorem annotated_verbatim :
    Written (annotated judgedData) annotatedNodes [annotatedEdge judgedData] ∧
      ∃ g, ofValue (annotated judgedData) = .ok g ∧
        g.toValue.equal true (annotated judgedData) = true := by
  have hwritten : Written (annotated judgedData) annotatedNodes [annotatedEdge judgedData] :=
    written_annotated (by simp [judgedData]) (by simp [judgedData]) (by simp [judgedData])
  obtain ⟨g, hg, hiff⟩ := hwritten.verbatim_iff
  refine ⟨hwritten, g, hg, hiff.mpr ?_⟩
  simp [Unsaved, annotatedEdge, judgedData, Node.others, Connection.verdictNames, Value.sameKey]

/-- A note beside the verdict on an edge is lost. -/
theorem annotated_note_lost :
    Written (annotated remarkedData) annotatedNodes [annotatedEdge remarkedData] ∧
      ∃ g, ofValue (annotated remarkedData) = .ok g ∧
        g.toValue.equal true (annotated remarkedData) = false := by
  refine ⟨written_annotated (by simp [remarkedData]) (by simp [remarkedData])
    (by simp [remarkedData]), ?_⟩
  have hrun : ((ofValue (annotated remarkedData)).toOption.map fun g =>
      g.toValue.equal true (annotated remarkedData)) = some false := by
    decide +kernel
  obtain ⟨g, hg, hequal⟩ := Option.map_eq_some_iff.mp hrun
  exact ⟨g, toOption_eq_some.mp hg, hequal⟩

end Snapshot

end BlockNet
