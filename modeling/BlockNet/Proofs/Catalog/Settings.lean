import BlockNet.Catalog.Stock
import BlockNet.Proofs.Outcome
import Mathlib.Data.List.Nodup

/-! # Settings in canonical form

Reading a value by a schema gives a value that the schema admits, so the settings of a block hold an
admitted value under the name of every schema, whatever its node overrides. -/

namespace BlockNet

/-! ## Values that a schema admits -/

/-- A value in the canonical form of a schema, and not beyond its bounds. A NaN is beyond none. -/
def ParamSpec.Admits (spec : ParamSpec) (v : Value) : Prop :=
  match spec.kind with
  | .integer => ∃ n : Int, v = .int n ∧ (∀ low, spec.minimum = .int low → low ≤ n) ∧
      ∀ high, spec.maximum = .int high → n ≤ high
  | .real => ∃ x : Float, v = .real x ∧ (∀ low, spec.minimum = .real low → ¬x < low) ∧
      ∀ high, spec.maximum = .real high → ¬high < x
  | .boolean => ∃ b, v = .bool b
  | .choice => v ∈ spec.options
  | .string => ∃ s, v = .text s

namespace ParamSpec

theorem readBoolean_eq_ok {v w : Value} (h : readBoolean v = .ok w) : ∃ b, w = .bool b := by
  simp only [readBoolean] at h
  split at h
  · exact ⟨_, (Except.ok.inj h).symm⟩
  · split at h
    · exact ⟨_, (Except.ok.inj h).symm⟩
    · split at h
      · exact ⟨_, (Except.ok.inj h).symm⟩
      · cases h
  · cases h

theorem readChoice_eq_ok {options : List Value} {v w : Value}
    (h : readChoice options v = .ok w) : w ∈ options := by
  simp only [readChoice] at h
  split at h
  · rename_i option hfind
    obtain rfl := Except.ok.inj h
    exact List.mem_of_find?_eq_some hfind
  · cases h

theorem readString_eq_ok {v w : Value} (h : readString v = .ok w) : ∃ s, w = .text s := by
  simp only [readString] at h
  split at h
  · cases h
  · exact ⟨_, (Except.ok.inj h).symm⟩

/-- What stays within bounds fails neither of them. -/
theorem withinBounds_eq_ok {spec : ParamSpec} {number : Number} {w : Value}
    (h : spec.withinBounds number = .ok (.ok w)) :
    w = number.toValue ∧ fails Number.lt number spec.minimum = .ok false ∧
      fails (fun n high => high.lt n) number spec.maximum = .ok false := by
  simp only [withinBounds] at h
  obtain ⟨low, hlow, h⟩ := bind_eq_ok.mp h
  cases low with
  | true =>
      simp only [if_true] at h
      cases Except.ok.inj h
  | false =>
      simp only [Bool.false_eq_true, if_false] at h
      obtain ⟨high, hhigh, h⟩ := bind_eq_ok.mp h
      cases high with
      | true =>
          simp only [if_true] at h
          cases Except.ok.inj h
      | false =>
          simp only [Bool.false_eq_true, if_false] at h
          exact ⟨(Except.ok.inj (Except.ok.inj h)).symm, hlow, hhigh⟩

theorem lt_whole (m n : Int) : Number.lt (.whole m) (.whole n) = true ↔ m < n := by
  simp only [Number.lt, Number.compare, Number.integer?, Option.getD_some, beq_iff_eq,
    Option.some.injEq, Int.compare_eq_lt]

theorem lt_real (x y : Float) : Number.lt (.real x) (.real y) = true ↔ x < y := by
  by_cases hlt : x < y
  · simp [Number.lt, Number.compare, hlt]
  · simp only [Number.lt, Number.compare, hlt, if_false, iff_false, beq_iff_eq]
    split
    · simp
    · split <;> simp

/-- A number that is read, of a kind and within bounds, is admitted. -/
theorem admits_of_withinBounds {spec : ParamSpec} {v w : Value} {x : Float} {number : Number}
    (hkind : spec.kind = .integer ∨ spec.kind = .real)
    (hnumber : numberOf spec.kind v x = .ok number)
    (h : spec.withinBounds number = .ok (.ok w)) : spec.Admits w := by
  obtain ⟨rfl, hlow, hhigh⟩ := withinBounds_eq_ok h
  rcases hkind with hkind | hkind
  · simp only [hkind, numberOf] at hnumber
    split at hnumber
    · obtain rfl := Except.ok.inj hnumber
      simp only [Admits, hkind]
      refine ⟨_, rfl, ?_, ?_⟩
      · intro low hmin
        rw [hmin] at hlow
        exact Int.not_lt.mp (mt (lt_whole _ low).mpr (Bool.eq_false_iff.mp (Except.ok.inj hlow)))
      · intro high hmax
        rw [hmax] at hhigh
        exact Int.not_lt.mp (mt (lt_whole high _).mpr (Bool.eq_false_iff.mp (Except.ok.inj hhigh)))
    · cases hnumber
  · simp only [hkind, numberOf] at hnumber
    obtain rfl := Except.ok.inj hnumber
    simp only [Admits, hkind]
    refine ⟨x, rfl, ?_, ?_⟩
    · intro low hmin
      rw [hmin] at hlow
      exact mt (lt_real x low).mpr (Bool.eq_false_iff.mp (Except.ok.inj hlow))
    · intro high hmax
      rw [hmax] at hhigh
      exact mt (lt_real high x).mpr (Bool.eq_false_iff.mp (Except.ok.inj hhigh))

theorem read_eq_ok {spec : ParamSpec} {v w : Value} (h : spec.read v = .ok (.ok w)) :
    spec.Admits w := by
  simp only [read] at h
  split at h
  · rename_i hkind
    simp only [Admits, hkind]
    exact readBoolean_eq_ok (Except.ok.inj h)
  · rename_i hkind
    simp only [Admits, hkind]
    exact readChoice_eq_ok (Except.ok.inj h)
  · rename_i hkind
    simp only [Admits, hkind]
    exact readString_eq_ok (Except.ok.inj h)
  · rename_i hboolean hchoice hstring
    obtain ⟨read, -, h⟩ := bind_eq_ok.mp h
    have hkind : spec.kind = .integer ∨ spec.kind = .real := by
      cases hk : spec.kind with
      | integer => exact .inl rfl
      | real => exact .inr rfl
      | boolean => exact absurd hk hboolean
      | choice => exact absurd hk hchoice
      | string => exact absurd hk hstring
    split at h
    · rename_i number hnumber
      obtain ⟨x, -, hnumber⟩ := bind_eq_ok.mp hnumber
      exact admits_of_withinBounds hkind hnumber h
    · cases Except.ok.inj h

/-- What a schema makes of a value, it admits. -/
theorem coerce_admits {spec : ParamSpec} {v w : Value} {blockType : String}
    (h : spec.coerce v blockType = .ok w) : spec.Admits w := by
  rw [coerce] at h
  obtain ⟨result, hread, h⟩ := bind_eq_ok.mp h
  cases result with
  | error reason => cases h
  | ok u =>
      obtain rfl := Except.ok.inj h
      exact read_eq_ok hread

theorem admits_about {spec : ParamSpec} {text : String} {v : Value} :
    (spec.about text).Admits v ↔ spec.Admits v := Iff.rfl

/-! ## Defaults -/

theorem integer_admits (name : String) {default : Int} {low high : Option Int}
    (hlow : ∀ n, low = some n → n ≤ default) (hhigh : ∀ n, high = some n → default ≤ n) :
    (integer name default low high).Admits (.int default) := by
  refine ⟨default, rfl, ?_, ?_⟩
  · intro n hn
    cases low with
    | none => cases hn
    | some m =>
        obtain rfl : m = n := by simpa [integer] using hn
        exact hlow m rfl
  · intro n hn
    cases high with
    | none => cases hn
    | some m =>
        obtain rfl : m = n := by simpa [integer] using hn
        exact hhigh m rfl

theorem real_admits (name : String) {default : Float} {low high : Option Float}
    (hlow : ∀ x, low = some x → ¬default < x) (hhigh : ∀ x, high = some x → ¬x < default) :
    (real name default low high).Admits (.real default) := by
  refine ⟨default, rfl, ?_, ?_⟩
  · intro x hx
    cases low with
    | none => cases hx
    | some y =>
        obtain rfl : y = x := by simpa [real] using hx
        exact hlow y rfl
  · intro x hx
    cases high with
    | none => cases hx
    | some y =>
        obtain rfl : y = x := by simpa [real] using hx
        exact hhigh y rfl

theorem boolean_admits (name : String) (default : Bool) :
    (boolean name default).Admits (.bool default) := ⟨default, rfl⟩

theorem choice_admits (name : String) {default : String} {options : List String}
    (h : default ∈ options) : (choice name default options).Admits (.text default) :=
  List.mem_map_of_mem h

end ParamSpec

/-! ## Settings -/

/-- Schemas under distinct names, each with a default that it admits. -/
structure Schemas (specs : List ParamSpec) : Prop where
  named : ∀ spec ∈ specs, ∃ name : String, spec.name = .text name
  nodup : (specs.map (·.name)).Nodup
  defaults : ∀ spec ∈ specs, spec.Admits spec.default

theorem Schemas.nil : Schemas [] := ⟨by simp, by simp, by simp⟩

theorem Schemas.cons {spec : ParamSpec} {specs : List ParamSpec} {name : String}
    (hname : spec.name = .text name) (hfresh : ∀ s ∈ specs, s.name ≠ .text name)
    (hdefault : spec.Admits spec.default) (h : Schemas specs) : Schemas (spec :: specs) := by
  refine ⟨?_, ?_, ?_⟩
  · rw [List.forall_mem_cons]
    exact ⟨⟨name, hname⟩, h.named⟩
  · rw [List.map_cons, List.nodup_cons, hname]
    refine ⟨?_, h.nodup⟩
    intro hmem
    obtain ⟨s, hs, heq⟩ := List.mem_map.mp hmem
    exact hfresh s hs heq
  · rw [List.forall_mem_cons]
    exact ⟨hdefault, h.defaults⟩

/-- Settings that hold an admitted value under the name of every schema. -/
def Entries.Fit (params : Entries) (specs : List ParamSpec) : Prop :=
  ∀ spec ∈ specs, ∃ v, params.get? spec.name = some v ∧ spec.Admits v

namespace Entries

theorem get?_set_of_key_ne (entries : Entries) {key : Value} {name : String} (value : Value)
    (h : key ≠ .text name) : (entries.set key value).get? name = entries.get? name := by
  have hkey : key.sameKey name = false := by
    rw [Bool.eq_false_iff, ne_eq, Value.sameKey_text]
    exact h
  induction entries with
  | nil => simp [set, get?, hkey]
  | cons e rest ih =>
      by_cases he : e.1.sameKey key = true
      · have hname : e.1.sameKey name = false := by
          rw [Bool.eq_false_iff, ne_eq, Value.sameKey_text]
          intro heq
          exact h (Value.text_sameKey.mp (heq ▸ he))
        simp [set, get?, he, hname]
      · by_cases hname : e.1.sameKey name = true
        · simp [set, get?, he, hname]
        · simpa [set, get?, he, hname] using ih

theorem get?_merge_of_forall_ne (entries : Entries) {more : Entries} {name : String}
    (h : ∀ e ∈ more, e.1 ≠ .text name) : (entries.merge more).get? name = entries.get? name := by
  induction more generalizing entries with
  | nil => rfl
  | cons e more ih =>
      rw [merge, List.foldl_cons, ← merge,
        ih (entries.set e.1 e.2) fun e' he' => h e' (List.mem_cons_of_mem e he'),
        get?_set_of_key_ne entries e.2 (h e List.mem_cons_self)]

theorem get?_merge_of_mem (entries : Entries) {more : Entries} {name : String} {v : Value}
    (hnodup : (more.map (·.1)).Nodup) (h : (.text name, v) ∈ more) :
    (entries.merge more).get? name = some v := by
  induction more generalizing entries with
  | nil => cases h
  | cons e more ih =>
      obtain ⟨hfresh, hnodup⟩ := List.nodup_cons.mp hnodup
      rw [merge, List.foldl_cons, ← merge]
      rcases List.mem_cons.mp h with rfl | h
      · rw [get?_merge_of_forall_ne, get?_set_self]
        intro e he heq
        exact hfresh (List.mem_map.mpr ⟨e, he, heq⟩)
      · exact ih (entries.set e.1 e.2) hnodup h

end Entries

namespace BlockDefinition

theorem defaults_fit {d : BlockDefinition} (hd : Schemas d.parameters) {params : Entries}
    (h : d.defaults = .ok params) : params.Fit d.parameters := by
  rw [defaults] at h
  split at h
  · obtain rfl := Except.ok.inj h
    intro spec hspec
    obtain ⟨name, hname⟩ := hd.named spec hspec
    refine ⟨spec.default, ?_, hd.defaults spec hspec⟩
    rw [hname]
    apply Entries.get?_merge_of_mem
    · rw [List.map_map]
      exact hd.nodup
    · exact List.mem_map.mpr ⟨spec, hspec, by rw [hname]⟩
  · cases h

/-- Laying an override over fitting settings keeps them fitting. -/
theorem fit_set {d : BlockDefinition} (hd : Schemas d.parameters) {params : Entries}
    (hparams : params.Fit d.parameters) {key value w : Value}
    (h : d.coerceOverride key value = .ok w) : (params.set key w).Fit d.parameters := by
  intro spec hspec
  obtain ⟨name, hname⟩ := hd.named spec hspec
  rw [hname]
  by_cases hkey : key = .text name
  · subst hkey
    refine ⟨w, Entries.get?_set_self params name w, ?_⟩
    rw [coerceOverride] at h
    split at h
    · rename_i hnone
      have hno := List.find?_eq_none.mp hnone spec hspec
      rw [hname] at hno
      simp [Value.sameKey] at hno
    · rename_i other hother
      have hmem := List.mem_of_find?_eq_some hother
      have hkey := List.find?_some hother
      have hsame : other.name = spec.name := by
        rw [hname]
        exact Value.sameKey_text.mp hkey
      obtain rfl := List.inj_on_of_nodup_map hd.nodup hmem hspec hsame
      exact ParamSpec.coerce_admits h
  · rw [Entries.get?_set_of_key_ne params w hkey, ← hname]
    exact hparams spec hspec

/-- Settings fit the schemas of their block, whatever is laid over the defaults. -/
theorem effectiveParams_fit {d : BlockDefinition} (hd : Schemas d.parameters)
    {overrides params : Entries} (h : d.effectiveParams overrides = .ok params) :
    params.Fit d.parameters := by
  rw [effectiveParams] at h
  obtain ⟨start, hstart, h⟩ := bind_eq_ok.mp h
  refine foldlM_induction (P := fun _ params => params.Fit d.parameters) ?_
    (defaults_fit hd hstart) h
  intro _ e params params' hparams hstep
  obtain ⟨w, hw, hstep⟩ := bind_eq_ok.mp hstep
  obtain rfl := Except.ok.inj hstep
  exact fit_set hd hparams hw

end BlockDefinition

end BlockNet
