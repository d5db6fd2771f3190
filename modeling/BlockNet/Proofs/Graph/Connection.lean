import BlockNet.Graph.Connection
import BlockNet.Proofs.Graph.Node
import BlockNet.Proofs.Value.Shown

/-! # Connections written and read back

Ids and ports are written as texts, and the last verdict only if there is one. What is read back is
the connection without an error that no verdict comes with. -/

namespace BlockNet.Connection

open List Entries

/-- The connection as a document keeps it: its error is written beside a verdict only, and only if
it counts as true. -/
def saved (c : Connection) : Connection :=
  { c with error := if c.isValid.given?.isSome then c.error.orElse .null else .null }

/-- Id and ports are texts, the id not the empty one, and nothing is kept under the name of a
field. -/
structure Regular (c : Connection) : Prop where
  id : ∃ s : String, c.id = .text s ∧ s ≠ ""
  sourcePort : ∃ s : String, c.sourcePort = .text s
  targetPort : ∃ s : String, c.targetPort = .text s
  named : c.extra.Named
  free : ∀ name ∈ fieldNames, c.extra.get? name = none

/-! ## Reading -/

theorem idOf_eq_ok {payload : Entries} {id : Value} (h : idOf payload = .ok id) :
    ∃ s : String, id = .text s ∧ s ≠ "" := by
  unfold idOf at h
  dsimp only at h
  split at h
  · rename_i htruthy
    exact ⟨_, (Except.ok.inj h).symm, Value.plain_ne_empty htruthy⟩
  · obtain ⟨source, -, h⟩ := bind_eq_ok.mp h
    obtain ⟨target, -, h⟩ := bind_eq_ok.mp h
    exact ⟨_, (Except.ok.inj h).symm, by simp [String.append_eq_empty_iff]⟩

theorem port_eq_ok {payload : Entries} {name : String} {port : Value}
    (h : (do let s ← textOf payload name; pure (Value.text s)) = .ok port) :
    ∃ s : String, port = .text s := by
  obtain ⟨s, -, h⟩ := bind_eq_ok.mp h
  exact ⟨s, (Except.ok.inj h).symm⟩

theorem regular_ofEditor {payload : Entries} {c : Connection} (hpayload : payload.Named)
    (h : ofEditor payload = .ok c) : c.Regular := by
  obtain ⟨id, hid, h⟩ := bind_eq_ok.mp h
  obtain ⟨source, -, h⟩ := bind_eq_ok.mp h
  obtain ⟨sourcePort, hsource, h⟩ := bind_eq_ok.mp h
  obtain ⟨target, -, h⟩ := bind_eq_ok.mp h
  obtain ⟨targetPort, htarget, h⟩ := bind_eq_ok.mp h
  obtain ⟨data, -, h⟩ := bind_eq_ok.mp h
  obtain rfl := Except.ok.inj h
  refine ⟨idOf_eq_ok hid, port_eq_ok hsource, port_eq_ok htarget, hpayload.others fieldNames, ?_⟩
  intro name hname
  simp [get?_others, hname]

theorem regular_ofFlat {payload : Entries} {c : Connection} (h : ofFlat payload = .ok c) :
    c.Regular := by
  obtain ⟨id, hid, h⟩ := bind_eq_ok.mp h
  obtain ⟨source, -, h⟩ := bind_eq_ok.mp h
  obtain ⟨sourcePort, hsource, h⟩ := bind_eq_ok.mp h
  obtain ⟨target, -, h⟩ := bind_eq_ok.mp h
  obtain ⟨targetPort, htarget, h⟩ := bind_eq_ok.mp h
  obtain rfl := Except.ok.inj h
  exact ⟨idOf_eq_ok hid, port_eq_ok hsource, port_eq_ok htarget, ⟨by simp, by simp⟩, by simp⟩

theorem regular_of_ofDict {payload : Entries} {c : Connection} (hpayload : payload.Named)
    (h : ofValue (.dict payload) = .ok c) : c.Regular := by
  obtain ⟨source, -, h⟩ := bind_eq_ok.mp h
  obtain ⟨target, -, h⟩ := bind_eq_ok.mp h
  dsimp only at h
  split at h
  · exact regular_ofEditor hpayload h
  · exact regular_ofFlat h

/-- What a document gives is a regular connection. -/
theorem regular_of_ofValue {v : Value} {c : Connection} (hv : v.IsJson) (h : ofValue v = .ok c) :
    c.Regular := by
  cases hv with
  | dict hnamed _ => exact regular_of_ofDict hnamed h
  | _ =>
      obtain ⟨source, -, h⟩ := bind_eq_ok.mp h
      obtain ⟨target, -, h⟩ := bind_eq_ok.mp h
      cases h

/-- What the editor's form gives. -/
theorem ofValue_editor {payload data : Entries} {id source sourcePort target targetPort : Value}
    (hdata : ((payload.getNull "data").orElse (.dict [])).members = .ok data)
    (hid : payload.get? "id" = some id) (htruthy : id.truthy = true)
    (hsource : payload.get? "source" = some source)
    (hsourcePort : payload.get? "sourceHandle" = some sourcePort)
    (htarget : payload.get? "target" = some target)
    (htargetPort : payload.get? "targetHandle" = some targetPort) :
    ofValue (.dict payload) = .ok
      { id := .text id.plain
        source := source.plain
        sourcePort := .text sourcePort.plain
        target := target.plain
        targetPort := .text targetPort.plain
        isValid := data.getNull "isValid"
        error := data.getNull "error"
        extra := Node.others payload fieldNames } := by
  have heditor : payload.has "sourceHandle" = true := by simp [has_eq_isSome, hsourcePort]
  have hread : ofValue (.dict payload) = ofEditor payload := by
    simp only [ofValue, Value.mentions, heditor, ok_bind, Bool.true_or, if_true]
  have hidOf : idOf payload = .ok (.text id.plain) := by
    simp [idOf, getNull, hid, htruthy]
  rw [hread, ofEditor, hidOf, hdata]
  simp [textOf, require, hsource, hsourcePort, htarget, htargetPort, orMishap, ok_bind]

/-! ## Writing -/

/-- What is written of the verdict. -/
def verdictData (c : Connection) : Entries :=
  field "isValid" c.isValid.given? ++ field "error" c.saved.error.given?

theorem getNull_isValid (c : Connection) : c.verdictData.getNull "isValid" = c.isValid := by
  simp [getNull, verdictData]

theorem getNull_error (c : Connection) : c.verdictData.getNull "error" = c.saved.error := by
  simp [getNull, verdictData]

/-- What is written of the id and of both ends. -/
def ends (c : Connection) : Entries :=
  field "id" (some c.id) ++ field "source" (some (.text c.source)) ++
    field "sourceHandle" (some c.sourcePort) ++ field "target" (some (.text c.target)) ++
    field "targetHandle" (some c.targetPort)

variable {c : Connection}

theorem Regular.toValue (h : c.Regular) : c.toValue = .dict (c.ends ++
    field "data" (if c.verdictData.isEmpty then none else some (.dict c.verdictData)) ++
    c.extra) := by
  have hmerge : ∀ out : Entries, (∀ e ∈ out, ∃ name ∈ fieldNames, e.1 = .text name) →
      out.merge c.extra = out ++ c.extra := fun _ => merge_free h.named h.free
  unfold Connection.toValue ends verdictData saved
  dsimp only
  split
  · rename_i hnull
    simp [hnull, hmerge, fieldNames, field]
  · rename_i hvalid
    have hgiven : c.isValid.given? = some c.isValid := Value.given?_of_ne hvalid
    by_cases herror : c.error.truthy = true
    · simp [set_eq_append, hgiven, hmerge, fieldNames, field, Value.orElse, herror,
        Value.given?_of_truthy herror]
    · simp [set_eq_append, hgiven, hmerge, fieldNames, field, Value.orElse, herror]

/-! ## Reading what was written -/

/-- A regular connection is read back as it was saved. -/
theorem Regular.ofValue_toValue (h : c.Regular) : ofValue c.toValue = .ok c.saved := by
  obtain ⟨s, hid, hs⟩ := h.id
  obtain ⟨port, hport⟩ := h.sourcePort
  obtain ⟨port', hport'⟩ := h.targetPort
  have hkept : Node.others c.extra fieldNames = c.extra := others_eq_self h.free
  have hdata : c.extra.get? "data" = none := h.free "data" (by simp [fieldNames])
  have hverdict : (((if c.verdictData.isEmpty then none else
      some (Value.dict c.verdictData)).getD .null).orElse (.dict [])).members =
        .ok c.verdictData := by
    cases c.verdictData <;> rfl
  obtain ⟨payload, hpayload, hmembers, hidOf, hsource, hsourcePort, htarget, htargetPort, hextra⟩ :
      ∃ payload : Entries, c.toValue = .dict payload ∧
        ((payload.getNull "data").orElse (.dict [])).members = .ok c.verdictData ∧
        payload.get? "id" = some c.id ∧ payload.get? "source" = some (.text c.source) ∧
        payload.get? "sourceHandle" = some c.sourcePort ∧
        payload.get? "target" = some (.text c.target) ∧
        payload.get? "targetHandle" = some c.targetPort ∧
        Node.others payload fieldNames = c.extra := by
    refine ⟨_, h.toValue, ?_, by simp [ends], by simp [ends], by simp [ends], by simp [ends],
      by simp [ends], ?_⟩
    · simpa [ends, getNull, hdata] using hverdict
    · simp only [ends, others_append, others_field, hkept]
      simp [fieldNames]
  have htruthy : c.id.truthy = true := by simp [hid, Value.truthy, hs]
  rw [hpayload, ofValue_editor hmembers hidOf htruthy hsource hsourcePort htarget htargetPort,
    getNull_isValid, getNull_error, hextra]
  simp [saved, hid, hport, hport', Value.plain]

@[simp]
theorem saved_saved (c : Connection) : c.saved.saved = c.saved := by
  have hnull : Value.null.truthy = false := rfl
  unfold saved Value.orElse
  cases c.isValid.given?.isSome <;> cases h : c.error.truthy <;> simp [h, hnull]

theorem Regular.saved (h : c.Regular) : c.saved.Regular :=
  ⟨h.id, h.sourcePort, h.targetPort, h.named, h.free⟩

/-- A saved connection is written as it was before. -/
theorem Regular.toValue_saved (h : c.Regular) : c.saved.toValue = c.toValue := by
  have hverdict : c.saved.verdictData = c.verdictData := by
    rw [verdictData, saved_saved]
    rfl
  rw [h.toValue, h.saved.toValue, hverdict]
  rfl

end BlockNet.Connection
