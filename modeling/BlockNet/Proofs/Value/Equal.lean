import BlockNet.Proofs.Value.Named
import BlockNet.Value.Number
import Mathlib.Data.List.Forall2

/-! # Equal values

A value is equal to itself if a NaN is taken to be. Two lists are equal member by member, and two
dicts if one has as many entries as the other and each of its entries is found there. -/

namespace BlockNet.Value

open List Float.Model

/-! ## Numbers -/

/-- A double is equal to itself unless it is no number. -/
theorem beq_self_or_isNaN (x : Float) : (x == x || x.isNaN) = true := by
  change (x.toModel.unpack.beq x.toModel.unpack || x.toModel.unpack.isNaN) = true
  cases x.toModel.unpack with
  | notANumber => rfl
  | zero sign => rfl
  | infinity sign => cases sign <;> rfl
  | finite sign m e hm =>
      have hsame : (compare e e).then (compare m m) = .eq :=
        Ordering.then_eq_eq.mpr ⟨Std.ReflCmp.compare_self, Std.ReflCmp.compare_self⟩
      cases sign with
      | positive =>
          change (some ((compare e e).then (compare m m)) == some .eq || false) = true
          rw [hsame]
          rfl
      | negative =>
          change (some ((compare e e).then (compare m m)).swap == some .eq || false) = true
          rw [hsame]
          rfl

theorem eq_whole_self (n : Int) : (Number.whole n).eq (.whole n) = true := by
  simp [Number.eq, Number.compare, Number.integer?]

theorem eq_flag_self (b : Bool) : (Number.flag b).eq (.flag b) = true := by
  cases b <;> rfl

theorem equal_int (nanEqual : Bool) (m n : Int) :
    (Value.int m).equal nanEqual (.int n) = (m == n) := by
  rw [Bool.eq_iff_iff]
  simp [equal, number?, Number.eq, Number.compare, Number.integer?]

/-! ## Lists and dicts -/

variable {nanEqual : Bool}

theorem equalItems_iff {xs ys : List Value} :
    equalItems nanEqual xs ys = true ↔ Forall₂ (fun x y => x.equal nanEqual y = true) xs ys := by
  induction xs generalizing ys with
  | nil => cases ys <;> simp [equalItems]
  | cons x xs ih => cases ys <;> simp [equalItems, ih]

theorem equalEntries_iff {es fs : List (Value × Value)} : equalEntries nanEqual es fs = true ↔
    ∀ e ∈ es, ∃ f ∈ fs, e.1.equal nanEqual f.1 = true ∧ e.2.equal nanEqual f.2 = true := by
  induction es with
  | nil => simp [equalEntries]
  | cons e es ih => simp [equalEntries, ih]

theorem equal_list_iff {xs ys : List Value} : (Value.list xs).equal nanEqual (.list ys) = true ↔
    Forall₂ (fun x y => x.equal nanEqual y = true) xs ys := by
  rw [equal, equalItems_iff]

theorem equal_dict_iff {es fs : List (Value × Value)} :
    (Value.dict es).equal nanEqual (.dict fs) = true ↔ es.length = fs.length ∧
      ∀ e ∈ es, ∃ f ∈ fs, e.1.equal nanEqual f.1 = true ∧ e.2.equal nanEqual f.2 = true := by
  rw [equal, Bool.and_eq_true, beq_iff_eq, equalEntries_iff]

theorem text_equal_iff {s : String} {v : Value} :
    (Value.text s).equal nanEqual v = true ↔ v = .text s := by
  cases v with
  | text t =>
      rw [equal, beq_iff_eq, text.injEq]
      exact eq_comm
  | _ => simp [equal, number?]

/-! ## A value and itself -/

mutual

theorem equal_self : ∀ v : Value, v.equal true v = true
  | .null => rfl
  | .bool b => eq_flag_self b
  | .int n => eq_whole_self n
  | .real x => by
      rw [equal, Bool.true_and, Bool.and_self]
      exact beq_self_or_isNaN x
  | .text s => beq_self_eq_true s
  | .dim d => beq_self_eq_true d
  | .list items => equal_list_iff.mpr (forall₂_same.mpr (items_equal_self items))
  | .tuple items => by
      rw [equal, equalItems_iff]
      exact forall₂_same.mpr (items_equal_self items)
  | .dict entries =>
      equal_dict_iff.mpr ⟨rfl, fun e he => ⟨e, he, entries_equal_self entries e he⟩⟩

theorem items_equal_self : ∀ items : List Value, ∀ v ∈ items, v.equal true v = true
  | [] => by simp
  | item :: rest => by
      rw [forall_mem_cons]
      exact ⟨equal_self item, items_equal_self rest⟩

theorem entries_equal_self : ∀ entries : List (Value × Value),
    ∀ e ∈ entries, e.1.equal true e.1 = true ∧ e.2.equal true e.2 = true
  | [] => by simp
  | (key, value) :: rest => by
      rw [forall_mem_cons]
      exact ⟨⟨equal_self key, equal_self value⟩, entries_equal_self rest⟩

end

/-- Dicts are equal just when they hold equal values under the same names, whatever the order of the
names. -/
theorem equal_dict_iff_of_perm {es es' fs fs' : Entries} (hes : es' ~ es) (hfs : fs' ~ fs)
    (hnamed : fs'.Named) (hkeys : es'.map (·.1) = fs'.map (·.1)) :
    (Value.dict es).equal true (.dict fs) = true ↔
      Forall₂ (fun e f => e.2.equal true f.2 = true) es' fs' := by
  have hlength : es'.length = fs'.length := by simpa using congrArg length hkeys
  have hkey : ∀ (i : Nat) (he : i < es'.length) (hf : i < fs'.length), es'[i].1 = fs'[i].1 := by
    intro i he hf
    have := congrArg (fun keys => keys[i]?) hkeys
    simpa [he, hf] using this
  rw [equal_dict_iff]
  constructor
  · rintro ⟨-, hfound⟩
    refine forall₂_iff_get.mpr ⟨hlength, fun i he hf => ?_⟩
    obtain ⟨f, hmem, hsame, hvalue⟩ := hfound es'[i] (hes.subset (getElem_mem he))
    -- The key is a text, so what is found under it is the entry at the same place.
    obtain ⟨name, hname⟩ := hnamed.text fs'[i] (getElem_mem hf)
    have hf' : f = fs'[i] := by
      refine inj_on_of_nodup_map hnamed.nodup (hfs.symm.subset hmem) (getElem_mem hf) ?_
      rw [hkey i he hf, hname, text_equal_iff] at hsame
      rw [hsame, hname]
    rw [hf'] at hvalue
    exact hvalue
  · intro hvalues
    refine ⟨by rw [← hes.length_eq, hlength, hfs.length_eq], fun e he => ?_⟩
    obtain ⟨i, hi, rfl⟩ := getElem_of_mem (hes.symm.subset he)
    have hf : i < fs'.length := hlength ▸ hi
    refine ⟨fs'[i], hfs.subset (getElem_mem hf), ?_, hvalues.get hi hf⟩
    rw [hkey i hi hf]
    exact equal_self _

/-- The order of the names makes no difference. -/
theorem equal_dict_of_perm {es fs : Entries} (hnamed : fs.Named) (h : es ~ fs) :
    (Value.dict es).equal true (.dict fs) = true :=
  (equal_dict_iff_of_perm h.symm (Perm.refl fs) hnamed rfl).mpr
    (forall₂_same.mpr fun e _ => equal_self e.2)

end BlockNet.Value
