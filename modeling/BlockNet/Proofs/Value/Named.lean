import BlockNet.Graph.Node
import Mathlib.Data.List.Nodup
import Mathlib.Data.List.Perm.Basic

/-! # Entries under distinct names

A document holds its entries under texts, each text once. Such entries are told by what stands under
each name: storing under a new name adds an entry at the end, and taking names away keeps the rest in
its order. -/

namespace BlockNet

open List

namespace Entries

/-- Entries under texts, each text once. -/
structure Named (entries : Entries) : Prop where
  text : ∀ e ∈ entries, ∃ name : String, e.1 = .text name
  nodup : (entries.map (·.1)).Nodup

/-- The entry under a name, if there is a value for it. -/
def field (name : String) (value : Option Value) : Entries :=
  (value.map fun v => (Value.text name, v)).toList

variable {entries more : Entries} {name key : String} {names : List String} {v : Value}

theorem sameKey_text_eq_false {k : Value} : k.sameKey (.text name) = false ↔ k ≠ .text name := by
  rw [← Bool.not_eq_true, Value.sameKey_text]

/-! ## What stands under a name -/

@[simp]
theorem get?_nil : get? [] (.text key) = none := rfl

@[simp]
theorem get?_cons_text (rest : Entries) : get? ((.text name, v) :: rest) (.text key) =
    if name = key then some v else get? rest (.text key) := by
  by_cases h : name = key <;> simp [get?, Value.sameKey, h]

@[simp]
theorem get?_append (entries more : Entries) :
    get? (entries ++ more) (.text key) = (entries.get? key).or (more.get? key) := by
  simp [get?, find?_append, Option.map_or]

@[simp]
theorem get?_field (value : Option Value) :
    (field name value).get? key = if name = key then value else none := by
  cases value <;> simp [field]

theorem get?_eq_none_iff : entries.get? name = none ↔ ∀ e ∈ entries, e.1 ≠ .text name := by
  simp [get?, sameKey_text_eq_false]

theorem mem_of_get? (h : entries.get? name = some v) : (.text name, v) ∈ entries := by
  obtain ⟨e, he, rfl⟩ := Option.map_eq_some_iff.mp h
  have hkey := find?_some he
  rw [Value.sameKey_text] at hkey
  rw [← hkey]
  exact mem_of_find?_eq_some he

theorem Named.get?_eq_some_iff (h : entries.Named) :
    entries.get? name = some v ↔ (.text name, v) ∈ entries := by
  refine ⟨mem_of_get?, fun hmem => ?_⟩
  cases hv : entries.get? name with
  | none => exact absurd rfl (get?_eq_none_iff.mp hv _ hmem)
  | some w =>
      have hsame := inj_on_of_nodup_map h.nodup hmem (mem_of_get? hv) rfl
      rw [(Prod.mk.inj hsame).2]

theorem has_eq_isSome : entries.has name = (entries.get? name).isSome := by
  rw [Bool.eq_iff_iff]
  simp [has, get?]

/-! ## Storing -/

theorem set_eq_append (h : entries.get? name = none) :
    entries.set name v = entries ++ field name (some v) := by
  induction entries with
  | nil => rfl
  | cons e rest ih =>
      rw [get?_eq_none_iff, forall_mem_cons] at h
      simp [set, sameKey_text_eq_false.mpr h.1, ih (get?_eq_none_iff.mpr h.2)]

/-- The first of named entries stands under a name that no other has. -/
theorem Named.head {e : Value × Value} (h : Named (e :: entries)) :
    ∃ name, e = (.text name, e.2) ∧ entries.get? name = none ∧ entries.Named := by
  obtain ⟨name, hname⟩ := h.text e mem_cons_self
  obtain ⟨hfresh, hnodup⟩ := nodup_cons.mp h.nodup
  refine ⟨name, Prod.ext hname rfl, ?_, fun f hf => h.text f (mem_cons_of_mem e hf), hnodup⟩
  exact get?_eq_none_iff.mpr fun f hf hkey =>
    hfresh (mem_map.mpr ⟨f, hf, hkey.trans hname.symm⟩)

@[simp]
theorem named_nil : Named [] := ⟨by simp, by simp⟩

@[simp]
theorem named_cons_text {rest : Entries} :
    Named ((.text name, v) :: rest) ↔ rest.get? name = none ∧ rest.Named := by
  constructor
  · intro h
    obtain ⟨key, hkey, hfresh, hrest⟩ := h.head
    obtain rfl := Value.text.inj (Prod.mk.inj hkey).1
    exact ⟨hfresh, hrest⟩
  · rintro ⟨hfresh, hrest⟩
    refine ⟨forall_mem_cons.mpr ⟨⟨name, rfl⟩, hrest.text⟩, nodup_cons.mpr ⟨?_, hrest.nodup⟩⟩
    intro hmem
    obtain ⟨e, he, hkey⟩ := mem_map.mp hmem
    exact get?_eq_none_iff.mp hfresh e he hkey

/-- Entries under new names are added at the end. -/
theorem merge_eq_append (hmore : more.Named)
    (hnew : ∀ name : String, more.get? name ≠ none → entries.get? name = none) :
    entries.merge more = entries ++ more := by
  induction more generalizing entries with
  | nil => simp [merge]
  | cons e more ih =>
      obtain ⟨name, he, hfresh, hmore⟩ := hmore.head
      rw [he] at hnew ⊢
      have hset : entries.set name e.2 = entries ++ field name (some e.2) :=
        set_eq_append (hnew name (by simp))
      have hrest : ∀ key : String, get? more key ≠ none →
          (entries.set name e.2).get? key = none := by
        intro key hkey
        have hne : name ≠ key := by
          rintro rfl
          exact hkey hfresh
        rw [hset]
        simp [hne, hnew key (by simp [hne, hkey])]
      rw [merge, foldl_cons, ← merge, ih hmore hrest, hset]
      simp [field]

/-- Entries are added at the end if the others stand under names that they avoid. -/
theorem merge_free (hmore : more.Named) (hfree : ∀ name ∈ names, more.get? name = none)
    (hentries : ∀ e ∈ entries, ∃ name ∈ names, e.1 = .text name) :
    entries.merge more = entries ++ more := by
  refine merge_eq_append hmore fun name hname => get?_eq_none_iff.mpr fun e he hkey => ?_
  obtain ⟨key, hmem, hkey'⟩ := hentries e he
  obtain rfl := Value.text.inj (hkey'.symm.trans hkey)
  exact hname (hfree key hmem)

/-! ## Taking away -/

theorem mem_others {e : Value × Value} :
    e ∈ Node.others entries names ↔ e ∈ entries ∧ ∀ name ∈ names, e.1 ≠ .text name := by
  simp [Node.others, sameKey_text_eq_false]

theorem erase_eq_others (entries : Entries) (name : String) :
    entries.erase name = Node.others entries [name] := by
  simp [erase, Node.others]

theorem others_append (entries more : Entries) (names : List String) :
    Node.others (entries ++ more) names = Node.others entries names ++ Node.others more names :=
  filter_append ..

theorem others_others (entries : Entries) (names names' : List String) :
    Node.others (Node.others entries names) names' = Node.others entries (names ++ names') := by
  simp [Node.others, filter_filter, Bool.and_comm]

theorem others_field (value : Option Value) :
    Node.others (field name value) names = if name ∈ names then [] else field name value := by
  cases value with
  | none => simp [field, Node.others]
  | some v =>
      by_cases h : name ∈ names
      · simp [field, Node.others, Value.sameKey, h]
      · have hne : ∀ key ∈ names, name ≠ key := fun key hkey heq => h (heq ▸ hkey)
        simpa [field, Node.others, Value.sameKey, h] using hne

theorem others_congr {names' : List String} (h : ∀ name, name ∈ names ↔ name ∈ names') :
    Node.others entries names = Node.others entries names' := by
  refine filter_congr fun e _ => ?_
  rw [Bool.eq_iff_iff]
  simp [h]

theorem others_eq_self (h : ∀ name ∈ names, entries.get? name = none) :
    Node.others entries names = entries := by
  refine filter_eq_self.mpr fun e he => ?_
  have hfree : ∀ name ∈ names, e.1 ≠ .text name := fun name hname =>
    get?_eq_none_iff.mp (h name hname) e he
  simpa [sameKey_text_eq_false] using hfree

theorem get?_others : (Node.others entries names).get? key =
    if key ∈ names then none else entries.get? key := by
  split
  · rename_i hkey
    exact get?_eq_none_iff.mpr fun e he => (mem_others.mp he).2 key hkey
  · rename_i hkey
    rw [get?, Node.others, find?_filter, get?]
    congr 2
    funext e
    rw [Bool.eq_iff_iff]
    simp only [Bool.decide_and, Bool.and_eq_true, decide_eq_true_eq, Value.sameKey_text]
    refine ⟨fun h => h.2, fun h => ⟨?_, h⟩⟩
    simp only [h, Value.sameKey, any_beq, contains_eq_mem]
    simpa using hkey

theorem Named.others (h : entries.Named) (names : List String) :
    (Node.others entries names).Named :=
  ⟨fun e he => h.text e (mem_filter.mp he).1, h.nodup.sublist (filter_sublist.map _)⟩

theorem Named.perm (h : entries.Named) (hperm : entries ~ more) : more.Named :=
  ⟨fun e he => h.text e (hperm.symm.subset he), (hperm.map _).nodup_iff.mp h.nodup⟩

/-- Entries are the one under a name and those under other names. -/
theorem Named.perm_field (h : entries.Named) (name : String) :
    entries ~ field name (entries.get? name) ++ Node.others entries [name] := by
  induction entries with
  | nil => simp [field, Node.others]
  | cons e rest ih =>
      obtain ⟨key, he, hfresh, hrest⟩ := h.head
      have hcons : e :: rest = field key (some e.2) ++ rest := by
        rw [he]
        rfl
      rw [hcons, others_append, others_field]
      by_cases hname : key = name
      · subst hname
        rw [if_pos mem_cons_self, others_eq_self (by simpa using hfresh)]
        simp
      · rw [if_neg (by simpa using hname)]
        simp only [get?_append, get?_field, hname, if_false, Option.none_or]
        exact ((ih hrest).append_left _).trans (perm_append_comm_assoc _ _ _)

/-- Entries are those under some names and the others. -/
theorem Named.perm_fields (h : entries.Named) (names : List String) (hnames : names.Nodup) :
    entries ~ (names.flatMap fun name => field name (entries.get? name)) ++
      Node.others entries names := by
  induction names generalizing entries with
  | nil => simp [Node.others]
  | cons name names ih =>
      obtain ⟨hname, hnames⟩ := nodup_cons.mp hnames
      have hrest := ih (h.others [name]) hnames
      have hfields : (names.flatMap fun key => field key ((Node.others entries [name]).get? key)) =
          names.flatMap fun key => field key (entries.get? key) := by
        refine flatMap_congr fun key hkey => ?_
        have hne : key ≠ name := ne_of_mem_of_not_mem hkey hname
        simp [get?_others, hne]
      rw [hfields, others_others] at hrest
      rw [flatMap_cons, append_assoc]
      exact (h.perm_field name).trans (hrest.append_left _)

end Entries

end BlockNet
