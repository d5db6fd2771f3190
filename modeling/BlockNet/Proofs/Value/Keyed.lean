import BlockNet.Proofs.Value.Named

/-! # Entries under keys of any type

A dict holds each of its keys once, whatever the keys are. Storing under a key of a dict keeps all
keys in their order, and storing under another key adds it behind them. -/

namespace BlockNet.Entries

open List

/-- Entries of which none stands under the key of an earlier one. -/
def Keyed (entries : Entries) : Prop :=
  entries.Pairwise fun earlier later => earlier.1.sameKey later.1 = false

variable {entries more : Entries} {key : Value}

theorem keyed_iff_keys : entries.Keyed ↔ entries.keys.Pairwise fun k l => k.sameKey l = false := by
  rw [keys, pairwise_map]
  rfl

theorem Named.keyed (h : entries.Named) : entries.Keyed := by
  refine (pairwise_map.mp h.nodup).imp_of_mem fun {e f} _ hf hne => ?_
  obtain ⟨name, hname⟩ := h.text f hf
  rw [hname] at hne ⊢
  exact sameKey_text_eq_false.mpr hne

theorem has_eq_false_iff : entries.has key = false ↔ ∀ e ∈ entries, e.1.sameKey key = false := by
  simp [has]

theorem has_append (entries more : Entries) (key : Value) :
    (entries ++ more).has key = (entries.has key || more.has key) :=
  any_append

/-! ## Storing -/

theorem set_append_of_has (h : entries.has key = true) (more : Entries) (v : Value) :
    (entries ++ more).set key v = entries.set key v ++ more := by
  induction entries with
  | nil => cases h
  | cons e rest ih =>
      by_cases he : e.1.sameKey key = true
      · simp [set, he]
      · have hrest : has rest key = true := by simpa [has, he] using h
        simp [set, he, ih hrest]

theorem set_append_of_lacks (h : entries.has key = false) (more : Entries) (v : Value) :
    (entries ++ more).set key v = entries ++ more.set key v := by
  induction entries with
  | nil => rfl
  | cons e rest ih =>
      obtain ⟨he, hrest⟩ := forall_mem_cons.mp (has_eq_false_iff.mp h)
      simp [set, he, ih (has_eq_false_iff.mpr hrest)]

/-- An entry under a new key is added at the end. -/
theorem set_of_lacks (h : entries.has key = false) (v : Value) :
    entries.set key v = entries ++ [(key, v)] := by
  have hset := set_append_of_lacks h [] v
  rwa [append_nil] at hset

theorem keys_set_of_has (h : entries.has key = true) (v : Value) :
    (entries.set key v).keys = entries.keys := by
  induction entries with
  | nil => cases h
  | cons e rest ih =>
      by_cases he : e.1.sameKey key = true
      · simp [set, keys, he]
      · have hrest : has rest key = true := by simpa [has, he] using h
        simpa [set, keys, he] using ih hrest

theorem Keyed.set (h : entries.Keyed) (key v : Value) : (entries.set key v).Keyed := by
  cases hkey : entries.has key with
  | true =>
      rw [keyed_iff_keys, keys_set_of_has hkey, ← keyed_iff_keys]
      exact h
  | false =>
      rw [set_of_lacks hkey]
      refine pairwise_append.mpr ⟨h, pairwise_singleton _ _, ?_⟩
      intro e he f hf
      rw [mem_singleton.mp hf]
      exact has_eq_false_iff.mp hkey e he

/-- Storing a value a second time changes nothing. -/
theorem set_set (hself : key.sameKey key = true) (entries : Entries) (v : Value) :
    (entries.set key v).set key v = entries.set key v := by
  induction entries with
  | nil => simp [set, hself]
  | cons e rest ih =>
      by_cases he : e.1.sameKey key = true
      · simp [set, he]
      · simpa [set, he] using ih

/-! ## Taking away -/

theorem mem_erase {e : Value × Value} :
    e ∈ entries.erase key ↔ e ∈ entries ∧ e.1.sameKey key = false := by
  simp [Entries.erase]

theorem erase_lacks (entries : Entries) (key : Value) : (entries.erase key).has key = false :=
  has_eq_false_iff.mpr fun _ he => (mem_erase.mp he).2

theorem Keyed.erase (h : entries.Keyed) (key : Value) : (entries.erase key).Keyed :=
  h.filter _

/-- What stands in a dict after storing under a name stood there under another name, or was stored. -/
theorem Keyed.mem_set (h : entries.Keyed) {name : String} {v : Value} {e : Value × Value}
    (he : e ∈ entries.set name v) : e ∈ entries.erase name ∨ e = (.text name, v) := by
  induction entries with
  | nil => exact .inr (mem_singleton.mp he)
  | cons f rest ih =>
      obtain ⟨hfresh, hrest⟩ := pairwise_cons.mp h
      rw [Entries.set] at he
      split at he
      · rename_i hf
        have hname := Value.sameKey_text.mp hf
        rcases mem_cons.mp he with rfl | he
        · exact .inr (by rw [hname])
        · have hne := hfresh e he
          rw [hname, ← Bool.not_eq_true, Value.text_sameKey, ← Value.sameKey_text,
            Bool.not_eq_true] at hne
          exact .inl (mem_erase.mpr ⟨mem_cons_of_mem f he, hne⟩)
      · rename_i hf
        rcases mem_cons.mp he with rfl | he
        · exact .inl (mem_erase.mpr ⟨mem_cons_self, Bool.not_eq_true _ ▸ hf⟩)
        · refine (ih hrest he).imp_left fun hmem => ?_
          obtain ⟨hmem, hne⟩ := mem_erase.mp hmem
          exact mem_erase.mpr ⟨mem_cons_of_mem f hmem, hne⟩

end BlockNet.Entries
