import BlockNet.Proofs.Outcome
import BlockNet.Proofs.Value.Named

/-! # Placed blocks written and read back

What the editor keeps beside the fields of a node is put in three places: entries of the node, the
node type, and entries of its `data`. A node that was read from a document keeps the three apart, and
is read back as it was. -/

namespace BlockNet

open List Entries

namespace Value

/-- A value that a document can spell: a dict holds distinct texts as keys, and there are neither
tuples nor dimensions. -/
inductive IsJson : Value → Prop
  | null : IsJson .null
  | bool (b : Bool) : IsJson (.bool b)
  | int (n : Int) : IsJson (.int n)
  | real (x : Float) : IsJson (.real x)
  | text (s : String) : IsJson (.text s)
  | list {items : List Value} (hitems : ∀ v ∈ items, IsJson v) : IsJson (.list items)
  | dict {entries : Entries} (hnamed : entries.Named) (hvalues : ∀ e ∈ entries, IsJson e.2) :
      IsJson (.dict entries)

attribute [simp] IsJson.null IsJson.bool IsJson.int IsJson.real IsJson.text

@[simp]
theorem isJson_list_iff {items : List Value} : IsJson (.list items) ↔ ∀ v ∈ items, v.IsJson := by
  constructor
  · rintro ⟨⟩
    assumption
  · exact .list

@[simp]
theorem isJson_dict_iff {entries : Entries} :
    IsJson (.dict entries) ↔ entries.Named ∧ ∀ e ∈ entries, e.2.IsJson := by
  constructor
  · rintro ⟨⟩
    exact ⟨‹_›, ‹_›⟩
  · rintro ⟨hnamed, hvalues⟩
    exact .dict hnamed hvalues

/-- The value, unless it is null. -/
def given? : Value → Option Value
  | .null => none
  | v => some v

@[simp]
theorem getD_given? (v : Value) : v.given?.getD .null = v := by
  cases v <;> rfl

@[simp]
theorem given?_null : Value.null.given? = none := rfl

theorem given?_of_ne {v : Value} (h : v ≠ .null) : v.given? = some v := by
  cases v with
  | null => exact absurd rfl h
  | _ => rfl

theorem given?_of_truthy {v : Value} (h : v.truthy = true) : v.given? = some v := by
  refine given?_of_ne ?_
  rintro rfl
  cases h

end Value

namespace Node

/-- What is kept beside the fields: other entries of the payload, other entries of `data` if there
are any, and the node type. -/
def laid (rest kept : Entries) (kind : Option Value) : Entries :=
  rest ++ field "data" (if kept.isEmpty then none else some (.dict kept)) ++ field "type" kind

/-- The node keeps nothing under the name of a field. -/
structure Keeps (n : Node) (rest kept : Entries) (kind : Option Value) : Prop where
  extra : n.extra = laid rest kept kind
  named : rest.Named
  rest_free : ∀ name ∈ fieldNames, rest.get? name = none
  kept_free : ∀ name ∈ dataNames, kept.get? name = none

/-- The node was laid out by a document. -/
def Regular (n : Node) : Prop := ∃ rest kept kind, n.Keeps rest kept kind

/-! ## Reading -/

theorem extraOf_eq (payload data : Entries) : extraOf payload data =
    laid (others payload fieldNames) (others data dataNames) (payload.get? "type") := by
  have hdata : (others payload fieldNames).get? "data" = none := by simp [get?_others, fieldNames]
  have htype : (others payload fieldNames).get? "type" = none := by simp [get?_others, fieldNames]
  unfold extraOf laid
  cases others data dataNames <;> cases payload.get? "type" <;>
    simp [set_eq_append, hdata, htype, field]

/-- What the editor's form gives. -/
theorem ofValue_editor {payload data params : Entries} {id blockType : Value}
    (hdata : payload.get? "data" = some (.dict data)) (hid : payload.get? "id" = some id)
    (hblock : data.get? "blockType" = some blockType)
    (hparams : paramsOf (data.getNull "parameters") = .ok params) :
    ofValue (.dict payload) = .ok
      { id := id.plain
        blockType := blockType.plain
        params
        label := data.getNull "label"
        isSource := (data.getNull "isSource").truthy
        position := payload.getNull "position"
        extra := extraOf payload data } := by
  have heditor : payload.has "data" = true := by simp [has_eq_isSome, hdata]
  have hfilled : data.isEmpty = false := by
    cases data with
    | nil => cases hblock
    | cons e rest => rfl
  have hmembers : ((payload.getNull "data").orElse (.dict [])).members = .ok data := by
    simp [getNull, hdata, Value.orElse, Value.truthy, hfilled, Value.members]
  have hread : ofValue (.dict payload) = ofEditor payload := by
    simp only [ofValue, Value.mentions, heditor, ok_bind, if_true]
  rw [hread, ofEditor, hmembers, ok_bind, require, hid, require, hblock, hparams]
  rfl

theorem keeps_ofEditor {payload data : Entries} {n : Node} (hpayload : payload.Named)
    (h : n.extra = extraOf payload data) :
    n.Keeps (others payload fieldNames) (others data dataNames) (payload.get? "type") := by
  refine ⟨h.trans (extraOf_eq payload data), hpayload.others fieldNames, ?_, ?_⟩ <;>
    intro name hname <;> simp [get?_others, hname]

theorem keeps_nothing {n : Node} (h : n.extra = []) : n.Keeps [] [] none :=
  ⟨h, ⟨by simp, by simp⟩, by simp, by simp⟩

/-- What a document gives is a regular node. -/
theorem regular_of_ofValue {v : Value} {n : Node} (hv : v.IsJson) (h : ofValue v = .ok n) :
    n.Regular := by
  obtain ⟨editor, -, h⟩ := bind_eq_ok.mp h
  cases hv with
  | dict hnamed hvalues =>
      cases editor with
      | true =>
          obtain ⟨data, -, h⟩ := bind_eq_ok.mp h
          obtain ⟨id, -, h⟩ := bind_eq_ok.mp h
          obtain ⟨blockType, -, h⟩ := bind_eq_ok.mp h
          obtain ⟨params, -, h⟩ := bind_eq_ok.mp h
          obtain rfl := Except.ok.inj h
          exact ⟨_, _, _, keeps_ofEditor hnamed rfl⟩
      | false =>
          obtain ⟨id, -, h⟩ := bind_eq_ok.mp h
          obtain ⟨blockType, -, h⟩ := bind_eq_ok.mp h
          obtain ⟨params, -, h⟩ := bind_eq_ok.mp h
          obtain rfl := Except.ok.inj h
          exact ⟨_, _, _, keeps_nothing rfl⟩
  | _ => cases editor <;> cases h

theorem Regular.withParams {n : Node} (h : n.Regular) (params : Entries) :
    Regular { n with params } := by
  obtain ⟨rest, kept, kind, h⟩ := h
  exact ⟨rest, kept, kind, h.extra, h.named, h.rest_free, h.kept_free⟩

/-! ## Writing -/

section

variable {n : Node} {rest kept : Entries} {kind : Option Value}

theorem Keeps.dataEntries (h : n.Keeps rest kept kind) : n.dataEntries =
    kept ++ field "blockType" (some (.text n.blockType)) ++
      field "parameters" (some (.dict n.params)) ++ field "label" n.label.given? ++
      field "isSource" (if n.isSource then some (.bool true) else none) := by
  have hrest : rest.get? "data" = none := h.rest_free "data" (by simp [fieldNames])
  have hextra : n.extra.get? "data" = some (.dict kept) ∨
      n.extra.get? "data" = none ∧ kept = [] := by
    cases kept <;> simp [h.extra, laid, hrest]
  have hfree : ∀ name ∈ dataNames, kept.get? name = none := h.kept_free
  simp only [dataNames, forall_mem_cons] at hfree
  obtain ⟨hblock, hlabel, hparams, hsource, -⟩ := hfree
  unfold Node.dataEntries
  rcases hextra with hsome | ⟨hnone, rfl⟩
  · rw [hsome]
    cases n.label <;> cases n.isSource <;>
      simp [set_eq_append, hblock, hlabel, hparams, hsource, Value.given?, field]
  · rw [hnone]
    cases n.label <;> cases n.isSource <;> simp [Entries.set, Value.given?, field, Value.sameKey]

theorem Keeps.toValue (h : n.Keeps rest kept kind) : n.toValue = .dict
    (field "id" (some (.text n.id)) ++ field "type" kind ++ field "position" n.position.given? ++
      field "data" (some (.dict n.dataEntries)) ++ rest) := by
  have hfree : ∀ name ∈ fieldNames, rest.get? name = none := h.rest_free
  simp only [fieldNames, forall_mem_cons] at hfree
  obtain ⟨hid, htype, hposition, hdata, -⟩ := hfree
  have hother : n.extra.erase "data" = rest ++ field "type" kind := by
    rw [h.extra, laid, erase_eq_others, others_append, others_append, others_field, others_field,
      others_eq_self (by simpa using hdata)]
    simp
  have hbare : (rest ++ field "type" kind).erase "type" = rest := by
    rw [erase_eq_others, others_append, others_field, others_eq_self (by simpa using htype)]
    simp
  have hmerge : ∀ out : Entries, (∀ e ∈ out, ∃ name ∈ fieldNames, e.1 = .text name) →
      out.merge rest = out ++ rest := fun _ => merge_free h.named h.rest_free
  unfold Node.toValue
  simp only [hother, hbare]
  cases kind <;> cases n.position <;>
    simp [htype, set_eq_append, Value.given?, field, hmerge, fieldNames]

/-! ## Reading what was written -/

theorem Keeps.extraOf_dataEntries (h : n.Keeps rest kept kind) {payload : Entries}
    (hpayload : n.toValue = .dict payload) : extraOf payload n.dataEntries = n.extra := by
  obtain rfl := Value.dict.inj (h.toValue.symm.trans hpayload)
  have hrest : rest.get? "type" = none := h.rest_free "type" (by simp [fieldNames])
  rw [extraOf_eq, h.extra, h.dataEntries]
  simp only [others_append, others_field, others_eq_self h.rest_free, others_eq_self h.kept_free]
  simp [fieldNames, dataNames, hrest]

/-- A regular node is read back as it was. -/
theorem Regular.ofValue_toValue (h : n.Regular) : ofValue n.toValue = .ok n := by
  obtain ⟨rest, kept, kind, h⟩ := h
  have hrest : ∀ name ∈ fieldNames, rest.get? name = none := h.rest_free
  have hkept : ∀ name ∈ dataNames, kept.get? name = none := h.kept_free
  simp only [fieldNames, dataNames, forall_mem_cons] at hrest hkept
  obtain ⟨hid, htype, hposition, hdata, -⟩ := hrest
  obtain ⟨hblock, hlabel, hparams, hsource, -⟩ := hkept
  obtain ⟨payload, hpayload, hdataOf, hidOf, hpositionOf⟩ : ∃ payload : Entries,
      n.toValue = .dict payload ∧ payload.get? "data" = some (.dict n.dataEntries) ∧
        payload.get? "id" = some (.text n.id) ∧ payload.getNull "position" = n.position :=
    ⟨_, h.toValue, by simp [hdata], by simp, by simp [getNull, hposition]⟩
  have hblockOf : n.dataEntries.get? "blockType" = some (.text n.blockType) := by
    simp [h.dataEntries, hblock]
  have hparamsOf : paramsOf (n.dataEntries.getNull "parameters") = .ok n.params := by
    have hstored : n.dataEntries.getNull "parameters" = .dict n.params := by
      simp [getNull, h.dataEntries, hparams]
    rw [hstored]
    cases n.params <;> rfl
  have hlabelOf : n.dataEntries.getNull "label" = n.label := by
    simp [getNull, h.dataEntries, hlabel]
  have hsourceOf : (n.dataEntries.getNull "isSource").truthy = n.isSource := by
    cases hs : n.isSource <;> simp [getNull, h.dataEntries, hsource, hs, Value.truthy]
  rw [hpayload, ofValue_editor hdataOf hidOf hblockOf hparamsOf, hlabelOf, hsourceOf, hpositionOf,
    h.extraOf_dataEntries hpayload]
  simp [Value.plain]

end

end Node

end BlockNet
