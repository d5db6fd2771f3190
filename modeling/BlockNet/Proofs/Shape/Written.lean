import BlockNet.Proofs.Outcome
import BlockNet.Shape.Basic

/-! # Written shapes

Whatever is done to a shape, each of its axes is what the value that was written there last stands for,
as if all values had been written at once. So a shape is told by its slots and its template, and writing
one slot leaves the others. -/

namespace BlockNet

open List

namespace Dim

/-! ## What a value writes -/

/-- The axis that a value writes: null and the batch axis itself, an unknown axis or `-1`, or a size. A
truth value writes none, though it stands for a whole number. -/
inductive Writes : Value → Dim → Prop
  | null : Writes .null batch
  | kept (d : Dynamic) : Writes (.dim d) (.dynamic d)
  | minusOne {v : Value} (h : v.toInt = .ok (-1)) : Writes v unknown
  | size {v : Value} {n : Nat} (hflag : ∀ b, v ≠ .bool b) (h : v.toInt = .ok n) : Writes v (.size n)

variable {v : Value} {d e : Dim}

theorem ofInt_eq_ok_iff {k : Int} :
    ofInt k = .ok d ↔ k = -1 ∧ d = unknown ∨ ∃ n : Nat, k = n ∧ d = .size n := by
  constructor
  · intro h
    match k, h with
    | .ofNat n, h => exact .inr ⟨n, rfl, (Except.ok.inj h).symm⟩
    | .negSucc 0, h => exact .inl ⟨rfl, (Except.ok.inj h).symm⟩
  · rintro (⟨rfl, rfl⟩ | ⟨n, rfl, rfl⟩)
    · rfl
    · rfl

/-- What is neither null nor dynamic nor a truth value is read as a whole number. -/
theorem ofValue_eq (hnull : v ≠ .null) (hdim : ∀ a, v ≠ .dim a) (hflag : ∀ b, v ≠ .bool b) :
    ofValue v = v.toInt >>= ofInt := by
  cases v with
  | null => exact absurd rfl hnull
  | dim a => exact absurd rfl (hdim a)
  | bool b => exact absurd rfl (hflag b)
  | _ => rfl

theorem Writes.ofValue_eq_ok (h : Writes v d) : ofValue v = .ok d := by
  cases h with
  | null => rfl
  | kept d => rfl
  | minusOne h =>
      rw [ofValue_eq (by rintro rfl; cases h) (by rintro a rfl; cases h)
        (by rintro b rfl; cases b <;> cases h), h]
      rfl
  | size hflag h =>
      rw [ofValue_eq (by rintro rfl; cases h) (by rintro a rfl; cases h) hflag, h]
      rfl

/-- A value is read as the axis that it writes, and refused if it writes none. -/
theorem ofValue_eq_ok_iff : ofValue v = .ok d ↔ Writes v d := by
  refine ⟨fun h => ?_, Writes.ofValue_eq_ok⟩
  have hwhole (hflag : ∀ b, v ≠ .bool b) (h : v.toInt >>= ofInt = .ok d) : Writes v d := by
    obtain ⟨k, hk, h⟩ := bind_eq_ok.mp h
    rcases ofInt_eq_ok_iff.mp h with ⟨rfl, rfl⟩ | ⟨n, rfl, rfl⟩
    · exact .minusOne hk
    · exact .size hflag hk
  cases v with
  | null =>
      obtain rfl := Except.ok.inj h
      exact .null
  | dim a =>
      obtain rfl := Except.ok.inj h
      exact .kept a
  | bool b => cases h
  | _ => exact hwhole (by simp) h

theorem Writes.unique (h : Writes v d) (h' : Writes v e) : d = e :=
  Except.ok.inj (h.ofValue_eq_ok.symm.trans h'.ofValue_eq_ok)

/-- An axis is written by itself. -/
theorem writes_toValue (d : Dim) : Writes d.toValue d := by
  cases d with
  | size n => exact .size (by simp [toValue]) rfl
  | dynamic a => exact .kept a

/-- An axis is written by what templates write for it. -/
theorem writes_toTemplate (d : Dim) : Writes d.toTemplate d := by
  cases d with
  | size n => exact .size (by simp [toTemplate]) rfl
  | dynamic a =>
      cases a with
      | batch => exact .null
      | unknown => exact .minusOne rfl

end Dim

/-- A value is read as an element type just when it is its name. -/
theorem DType.ofValue_eq_ok_iff {v : Value} {t : DType} :
    DType.ofValue v = .ok t ↔ v = .text t.name := by
  constructor
  · intro h
    obtain ⟨found, hfound, h⟩ := bind_eq_ok.mp h
    cases found with
    | none => cases h
    | some u =>
        obtain rfl := Except.ok.inj h
        cases v with
        | text name =>
            have hname := find?_some (Except.ok.inj hfound)
            rw [eq_of_beq hname]
        | _ =>
            rw [DType.find] at hfound
            · split at hfound <;> cases hfound
            · simp
  · rintro rfl
    cases t <;> rfl

namespace TensorShape

variable {s s' : TensorShape} {dims : List Value} {dtype index value : Value}

/-! ## Slots written at once -/

theorem mapM_ofValue_eq_ok_iff {ds : List Dim} :
    dims.mapM Dim.ofValue = .ok ds ↔ Forall₂ Dim.Writes dims ds := by
  rw [mapM_eq_ok]
  simp only [Dim.ofValue_eq_ok_iff]

/-- A shape is made of values just when each writes its axis and the last one names its type. -/
theorem ofValues_eq_ok_iff : ofValues dims dtype = .ok s ↔
    Forall₂ Dim.Writes dims s.dims ∧ dtype = .text s.dtype.name := by
  rw [← DType.ofValue_eq_ok_iff, ← mapM_ofValue_eq_ok_iff]
  constructor
  · intro h
    obtain ⟨t, ht, h⟩ := bind_eq_ok.mp h
    obtain ⟨ds, hds, h⟩ := bind_eq_ok.mp h
    obtain rfl := Except.ok.inj h
    exact ⟨hds, ht⟩
  · rintro ⟨hdims, htype⟩
    rw [ofValues, htype, ok_bind, hdims]
    rfl

/-- The slots of a shape, as values. -/
def slots (s : TensorShape) : List Value := s.dims.map Dim.toValue

theorem forall₂_map_writes {f : Dim → Value} (hf : ∀ d, Dim.Writes (f d) d) (ds : List Dim) :
    Forall₂ Dim.Writes (ds.map f) ds :=
  forall₂_map_left_iff.mpr (forall₂_same.mpr fun d _ => hf d)

/-- A shape that is made of its own slots again is the same. -/
theorem ofValues_slots (s : TensorShape) : ofValues s.slots (.text s.dtype.name) = .ok s :=
  ofValues_eq_ok_iff.mpr ⟨forall₂_map_writes Dim.writes_toValue s.dims, rfl⟩

/-- A shape is read back from its template. -/
theorem ofTemplate_toTemplate (s : TensorShape) : ofTemplate s.toTemplate = .ok s :=
  ofValues_eq_ok_iff.mpr ⟨forall₂_map_writes Dim.writes_toTemplate s.dims, rfl⟩

/-! ## Slots written one by one -/

/-- An index means a place in a list if it is the place, or the place as counted from the end. -/
theorem position?_eq_some_iff {length i : Nat} {k : Int} :
    position? length k = some i ↔ i < length ∧ (k = i ∨ k + length = i) := by
  rw [position?, Option.ite_none_right_eq_some, Option.some.injEq]
  split <;> omega

/-- An index addresses a slot, from the front or from the end. -/
def Addresses (s : TensorShape) (index : Value) (i : Nat) : Prop :=
  ∃ k, index.number?.bind Number.integer? = some k ∧ i < s.rank ∧ (k = i ∨ k + s.rank = i)

/-- One slot of a shape is replaced. -/
structure Replaced (s : TensorShape) (i : Nat) (d : Dim) (s' : TensorShape) : Prop where
  rank : s'.rank = s.rank
  dtype : s'.dtype = s.dtype
  slot : s'.dims[i]? = some d
  others : ∀ j, j ≠ i → s'.dims[j]? = s.dims[j]?

theorem replaced_iff {i : Nat} {d : Dim} (hi : i < s.rank) :
    s.Replaced i d s' ↔ s' = { s with dims := s.dims.set i d } := by
  constructor
  · intro h
    have hdims : s'.dims = s.dims.set i d := by
      refine ext_getElem? fun j => ?_
      rw [getElem?_set]
      split
      · rename_i heq
        subst heq
        rw [if_pos (show i < s.dims.length from hi), h.slot]
      · rename_i hne
        exact h.others j (Ne.symm hne)
    obtain ⟨ds, t⟩ := s'
    obtain rfl : ds = _ := hdims
    obtain rfl : t = s.dtype := h.dtype
    rfl
  · rintro rfl
    exact ⟨length_set, rfl, getElem?_set_self hi, fun j hj => getElem?_set_ne (Ne.symm hj)⟩

/-- An axis is set just when the index means a place and there is an axis to set. -/
theorem setDim_eq_ok_iff {k : Int} {dim : Outcome Dim} : s.setDim k dim = .ok s' ↔
    ∃ i d, i < s.rank ∧ (k = i ∨ k + s.rank = i) ∧ dim = .ok d ∧ s.Replaced i d s' := by
  constructor
  · intro h
    obtain ⟨i, hi, h⟩ := bind_eq_ok.mp h
    obtain ⟨d, hd, h⟩ := bind_eq_ok.mp h
    obtain ⟨hlt, hplace⟩ := position?_eq_some_iff.mp (orMishap_eq_ok.mp hi)
    exact ⟨i, d, hlt, hplace, hd, (replaced_iff hlt).mpr (Except.ok.inj h).symm⟩
  · rintro ⟨i, d, hlt, hplace, hd, hreplaced⟩
    refine bind_eq_ok.mpr ⟨i, orMishap_eq_ok.mpr (position?_eq_some_iff.mpr ⟨hlt, hplace⟩), ?_⟩
    refine bind_eq_ok.mpr ⟨d, hd, ?_⟩
    rw [(replaced_iff hlt).mp hreplaced]

/-- A slot is written just when the index addresses one and the value writes an axis. Then it takes this
axis and nothing else changes. -/
theorem withDim_eq_ok_iff : s.withDim index value = .ok s' ↔
    ∃ i d, s.Addresses index i ∧ Dim.Writes value d ∧ s.Replaced i d s' := by
  constructor
  · intro h
    obtain ⟨k, hk, h⟩ := bind_eq_ok.mp h
    obtain ⟨i, d, hlt, hplace, hd, hreplaced⟩ := setDim_eq_ok_iff.mp h
    exact ⟨i, d, ⟨k, orMishap_eq_ok.mp hk, hlt, hplace⟩, Dim.ofValue_eq_ok_iff.mp hd, hreplaced⟩
  · rintro ⟨i, d, ⟨k, hk, hlt, hplace⟩, hd, hreplaced⟩
    refine bind_eq_ok.mpr ⟨k, orMishap_eq_ok.mpr hk, ?_⟩
    exact setDim_eq_ok_iff.mpr ⟨i, d, hlt, hplace, hd.ofValue_eq_ok, hreplaced⟩

theorem mapM_set_toValue {ds : List Dim} {i : Nat} (hi : i < ds.length) (value : Value) :
    ((ds.map Dim.toValue).set i value).mapM Dim.ofValue =
      (Dim.ofValue value).map fun d => ds.set i d := by
  induction ds generalizing i with
  | nil => cases hi
  | cons d ds ih =>
      cases i with
      | zero =>
          have hrest := mapM_ofValue_eq_ok_iff.mpr (forall₂_map_writes Dim.writes_toValue ds)
          rw [map_cons, set_cons_zero, mapM_cons, hrest]
          cases Dim.ofValue value <;> rfl
      | succ i =>
          rw [map_cons, set_cons_succ, mapM_cons, (Dim.writes_toValue d).ofValue_eq_ok, ok_bind,
            ih (Nat.lt_of_succ_lt_succ hi)]
          cases Dim.ofValue value <;> rfl

/-- Writing to a slot comes to the same as making the shape of its slots again, with the value in the
place of one of them: the others are what they were. -/
theorem ofValues_set_slots {i : Nat} (hi : s.Addresses index i) (value : Value) :
    ofValues (s.slots.set i value) (.text s.dtype.name) = s.withDim index value := by
  obtain ⟨k, hk, hlt, hplace⟩ := hi
  have htype : DType.ofValue (.text s.dtype.name) = .ok s.dtype := DType.ofValue_eq_ok_iff.mpr rfl
  have hposition : position? s.dims.length k = some i := position?_eq_some_iff.mpr ⟨hlt, hplace⟩
  rw [ofValues, htype, ok_bind, slots, mapM_set_toValue hlt]
  simp only [withDim, hk, setDim, hposition, orMishap, ok_bind]
  cases Dim.ofValue value <;> rfl

/-! ## Chains -/

/-- The values that were written last to the slots and to the type of a shape, by whatever chain of calls
it came about: it was made of values, read from a template, or had a batch axis put in front, and was
written to slot by slot. -/
inductive Written : TensorShape → List Value → Value → Prop
  | made {s : TensorShape} {dims : List Value} {dtype : Value} (h : ofValues dims dtype = .ok s) :
      Written s dims dtype
  | template {s : TensorShape} {entries : Entries} {dims : List Value}
      (hdims : ((entries.get? "dimensions").getD (.tuple [])).toList = .ok dims)
      (h : ofTemplate (.dict entries) = .ok s) :
      Written s dims ((entries.get? "dtype").getD (.text "float32"))
  | batched {sample : List Value} {ds : List Dim} {dtype : Value} {t : DType}
      (hsample : sample.mapM Dim.ofValue = .ok ds) (htype : DType.ofValue dtype = .ok t) :
      Written (.batched ds t) (.dim .batch :: sample) dtype
  | withDim {s s' : TensorShape} {dims : List Value} {dtype index value : Value} {i : Nat}
      (hs : Written s dims dtype) (hi : s.Addresses index i) (h : s.withDim index value = .ok s') :
      Written s' (dims.set i value) dtype
  | withDtype {s : TensorShape} {dims : List Value} {dtype dtype' : Value} {t : DType}
      (hs : Written s dims dtype) (h : DType.ofValue dtype' = .ok t) :
      Written (s.withDtype t) dims dtype'

theorem Addresses.unique {i j : Nat} (h : s.Addresses index i) (h' : s.Addresses index j) : i = j := by
  obtain ⟨k, hk, hi, hplace⟩ := h
  obtain ⟨k', hk', hj, hplace'⟩ := h'
  obtain rfl := Option.some.inj (hk.symm.trans hk')
  omega

theorem forall₂_set {α β : Type} {R : α → β → Prop} {xs : List α} {ys : List β}
    (h : Forall₂ R xs ys) {a : α} {b : β} (hab : R a b) (i : Nat) :
    Forall₂ R (xs.set i a) (ys.set i b) := by
  induction h generalizing i with
  | nil => exact .nil
  | cons hxy hrest ih =>
      cases i with
      | zero => exact .cons hab hrest
      | succ i => exact .cons hxy (ih i)

namespace Written

/-- Writing to a shape comes to the same as making it of the values that were written last. -/
theorem ofValues_eq (h : Written s dims dtype) : ofValues dims dtype = .ok s := by
  induction h with
  | made h => exact h
  | template hdims h =>
      rw [ofTemplate, Value.members, ok_bind, hdims, ok_bind] at h
      exact h
  | batched hsample htype =>
      rw [ofValues_eq_ok_iff, ← DType.ofValue_eq_ok_iff]
      exact ⟨.cons (.kept .batch) (mapM_ofValue_eq_ok_iff.mp hsample), htype⟩
  | withDim hs hi h ih =>
      obtain ⟨hdims, hdtype⟩ := ofValues_eq_ok_iff.mp ih
      obtain ⟨i, d, hi', hd, hreplaced⟩ := withDim_eq_ok_iff.mp h
      obtain rfl := hi.unique hi'
      obtain ⟨-, -, hlt, -⟩ := hi
      obtain rfl := (replaced_iff hlt).mp hreplaced
      exact ofValues_eq_ok_iff.mpr ⟨forall₂_set hdims hd _, hdtype⟩
  | withDtype hs h ih =>
      rw [ofValues_eq_ok_iff, ← DType.ofValue_eq_ok_iff]
      exact ⟨(ofValues_eq_ok_iff.mp ih).1, h⟩

/-- Whatever chain of calls a shape comes from, it is what the values written last stand for. Its slots are
sizes, batch axes and unknown axes under one of three types, and the shape comes back from its template and
from its slots. Writing a slot replaces the one that the index addresses, by the axis that the value
writes, and fails if there is no such slot or the value writes none. -/
theorem canonical (h : Written s dims dtype) :
    (ofValues dims dtype = .ok s ∧ Forall₂ Dim.Writes dims s.dims ∧ dtype = .text s.dtype.name) ∧
      (∀ v ∈ s.slots, (∃ n : Nat, v = .int n) ∨ v = .dim .batch ∨ v = .dim .unknown) ∧
      s.dtype.name ∈ ["bool", "int32", "float32"] ∧
      ofTemplate s.toTemplate = .ok s ∧
      ofValues s.slots (.text s.dtype.name) = .ok s ∧
      ∀ index value, (∀ s', s.withDim index value = .ok s' ↔
          ∃ i d, s.Addresses index i ∧ Dim.Writes value d ∧ s.Replaced i d s') ∧
        ∀ i, s.Addresses index i →
          s.withDim index value = ofValues (s.slots.set i value) (.text s.dtype.name) := by
  refine ⟨⟨h.ofValues_eq, ofValues_eq_ok_iff.mp h.ofValues_eq⟩, ?_, ?_, ofTemplate_toTemplate s,
    ofValues_slots s, fun index value => ⟨fun s' => withDim_eq_ok_iff, fun i hi => ?_⟩⟩
  · intro v hv
    obtain ⟨d, -, rfl⟩ := mem_map.mp hv
    rcases d with n | _ | _
    · exact .inl ⟨n, rfl⟩
    · exact .inr (.inl rfl)
    · exact .inr (.inr rfl)
  · cases s.dtype <;> simp [DType.name]
  · exact (ofValues_set_slots hi value).symm

/-- Three axes, of which the last is written as a numeral at first and then, counted from the end, as a
real. -/
theorem canonical_rewritten :
    Written ⟨[Dim.batch, Dim.unknown, .size 28], .int32⟩ [.null, .int (-1), .real 28.5]
        (.text "int32") ∧
      ofTemplate (.dict [(.text "dimensions", .list [.null, .int (-1), .int 28]),
        (.text "dtype", .text "int32")]) =
        .ok ⟨[Dim.batch, Dim.unknown, .size 28], .int32⟩ := by
  have hmade : Written ⟨[Dim.batch, Dim.unknown, .size 3], .float32⟩
      [.null, .int (-1), .text "3"] (.text "float32") := .made rfl
  have hlast : Addresses ⟨[Dim.batch, Dim.unknown, .size 3], .float32⟩ (.int (-1)) 2 :=
    ⟨-1, rfl, by decide, .inr rfl⟩
  have hwritten : Written ⟨[Dim.batch, Dim.unknown, .size 28], .float32⟩
      [.null, .int (-1), .real 28.5] (.text "float32") := hmade.withDim hlast rfl
  have hretyped : Written ⟨[Dim.batch, Dim.unknown, .size 28], .int32⟩
      [.null, .int (-1), .real 28.5] (.text "int32") := hwritten.withDtype rfl
  obtain ⟨-, -, -, htemplate, -⟩ := hretyped.canonical
  exact ⟨hretyped, htemplate⟩

end Written

end TensorShape

end BlockNet
