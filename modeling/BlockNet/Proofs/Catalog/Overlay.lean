import BlockNet.Proofs.Catalog.Canonical
import BlockNet.Proofs.Value.Keyed

/-! # Overrides over defaults

The settings of a block are the parameters of its schemas, in the order of the schemas, each with its
override in canonical form or else with its default, and behind them the overrides that no schema
knows, as they came. Settings that are laid out so are laid out the same from themselves. -/

namespace BlockNet

open List

/-- Schemas under distinct names, whose defaults are canonical and whose options are apart. -/
structure Consistent (specs : List ParamSpec) : Prop where
  named : ∀ spec ∈ specs, ∃ name : String, spec.name = .text name
  nodup : (specs.map (·.name)).Nodup
  defaults : ∀ spec ∈ specs, spec.Canonical spec.default
  apart : ∀ spec ∈ specs, spec.kind = .choice → ParamSpec.Apart spec.options

/-- The parameters of schemas in their order, with their values. -/
def ParamSpec.entries (specs : List ParamSpec) (value : ParamSpec → Value) : Entries :=
  specs.map fun spec => (spec.name, value spec)

namespace BlockDefinition

/-- The setting of a parameter: its override in canonical form, or its default. -/
def settingOf (d : BlockDefinition) (overrides : Entries) (spec : ParamSpec) : Outcome Value :=
  match overrides.get? spec.name with
  | some v => spec.coerce v d.blockType
  | none => .ok spec.default

/-- The overrides that no schema knows. -/
def unknown (d : BlockDefinition) (overrides : Entries) : Entries :=
  overrides.filter fun e => (d.param? e.1).isNone

/-- The parameters in the order of the schemas, each with its setting, and then what no schema
knows. -/
def LaidOut (d : BlockDefinition) (overrides params : Entries) : Prop :=
  ∃ value : ParamSpec → Value,
    (∀ spec ∈ d.parameters, d.settingOf overrides spec = .ok (value spec)) ∧
      params = ParamSpec.entries d.parameters value ++ d.unknown overrides

/-- Every override of a known parameter can be read. -/
def Reads (d : BlockDefinition) (overrides : Entries) : Prop :=
  ∀ e ∈ overrides, ∃ w, d.coerceOverride e.1 e.2 = .ok w

end BlockDefinition

/-! ## Entries of schemas -/

namespace Consistent

variable {specs : List ParamSpec} {spec : ParamSpec} {key w : Value}

theorem of_cons (h : Consistent (spec :: specs)) : Consistent specs :=
  ⟨fun s hs => h.named s (mem_cons_of_mem spec hs), (nodup_cons.mp h.nodup).2,
    fun s hs => h.defaults s (mem_cons_of_mem spec hs),
    fun s hs => h.apart s (mem_cons_of_mem spec hs)⟩

theorem sameKey_iff (h : Consistent specs) (hspec : spec ∈ specs) :
    spec.name.sameKey key = true ↔ key = spec.name := by
  obtain ⟨name, hname⟩ := h.named spec hspec
  rw [hname, Value.text_sameKey]

theorem named_entries (h : Consistent specs) (value : ParamSpec → Value) :
    (ParamSpec.entries specs value).Named := by
  refine ⟨?_, ?_⟩
  · intro e he
    obtain ⟨spec, hspec, rfl⟩ := mem_map.mp he
    exact h.named spec hspec
  · rw [ParamSpec.entries, map_map]
    exact h.nodup

theorem get?_entries (h : Consistent specs) (hspec : spec ∈ specs) (value : ParamSpec → Value)
    (more : Entries) :
    Entries.get? (ParamSpec.entries specs value ++ more) spec.name = some (value spec) := by
  obtain ⟨name, hname⟩ := h.named spec hspec
  have hmem : (.text name, value spec) ∈ ParamSpec.entries specs value :=
    mem_map.mpr ⟨spec, hspec, by rw [hname]⟩
  rw [hname, Entries.get?_append, (h.named_entries value).get?_eq_some_iff.mpr hmem, Option.some_or]

theorem has_entries (h : Consistent specs) (value : ParamSpec → Value) (key : Value) :
    (ParamSpec.entries specs value).has key = true ↔ ∃ spec ∈ specs, key = spec.name := by
  rw [Entries.has, any_eq_true]
  constructor
  · rintro ⟨e, he, hkey⟩
    obtain ⟨spec, hspec, rfl⟩ := mem_map.mp he
    exact ⟨spec, hspec, (h.sameKey_iff hspec).mp hkey⟩
  · rintro ⟨spec, hspec, rfl⟩
    exact ⟨_, mem_map_of_mem hspec, (h.sameKey_iff hspec).mpr rfl⟩

/-- Storing under the name of a schema changes the value of that parameter alone. -/
theorem set_entries (h : Consistent specs) (hspec : spec ∈ specs) (value : ParamSpec → Value) :
    (ParamSpec.entries specs value).set spec.name w =
      ParamSpec.entries specs fun s => if s.name.sameKey spec.name then w else value s := by
  induction specs with
  | nil => cases hspec
  | cons s specs ih =>
      simp only [ParamSpec.entries, map_cons, Entries.set]
      by_cases hs : s.name.sameKey spec.name = true
      · have hname := (h.sameKey_iff mem_cons_self).mp hs
        rw [if_pos hs, if_pos hs]
        refine congrArg _ (map_congr_left fun t ht => ?_)
        have hne : ¬t.name.sameKey spec.name = true := by
          rw [h.sameKey_iff (mem_cons_of_mem s ht)]
          intro heq
          exact (nodup_cons.mp h.nodup).1 (mem_map.mpr ⟨t, ht, heq.symm.trans hname⟩)
        rw [if_neg hne]
      · have hmem : spec ∈ specs := by
          refine (mem_cons.mp hspec).resolve_left ?_
          rintro rfl
          exact hs ((h.sameKey_iff mem_cons_self).mpr rfl)
        rw [if_neg hs, if_neg hs]
        exact congrArg _ (ih h.of_cons hmem)

end Consistent

namespace BlockDefinition

variable {d : BlockDefinition} {overrides params : Entries} {spec : ParamSpec} {key v w : Value}

theorem param?_eq_none (hd : Consistent d.parameters) :
    d.param? key = none ↔ ∀ spec ∈ d.parameters, key ≠ spec.name := by
  rw [param?, find?_eq_none]
  exact forall₂_congr fun spec hspec => not_congr (hd.sameKey_iff hspec)

theorem param?_eq_some (hd : Consistent d.parameters) :
    d.param? key = some spec ↔ spec ∈ d.parameters ∧ key = spec.name := by
  have hfound : ∀ {s : ParamSpec}, d.param? key = some s → s ∈ d.parameters ∧ key = s.name := by
    intro s h
    have hmem := mem_of_find?_eq_some h
    have hkey := find?_some h
    exact ⟨hmem, (hd.sameKey_iff hmem).mp hkey⟩
  refine ⟨hfound, ?_⟩
  rintro ⟨hmem, hname⟩
  cases hfind : d.param? key with
  | none => exact absurd hname ((param?_eq_none hd).mp hfind spec hmem)
  | some other =>
      obtain ⟨hother, hname'⟩ := hfound hfind
      rw [inj_on_of_nodup_map hd.nodup hother hmem (hname'.symm.trans hname)]

/-! ## What is laid out -/

theorem LaidOut.unique {params' : Entries} (h : d.LaidOut overrides params)
    (h' : d.LaidOut overrides params') : params = params' := by
  obtain ⟨value, hvalue, rfl⟩ := h
  obtain ⟨value', hvalue', rfl⟩ := h'
  have hsame : ParamSpec.entries d.parameters value = ParamSpec.entries d.parameters value' := by
    refine map_congr_left fun spec hspec => ?_
    rw [Except.ok.inj ((hvalue spec hspec).symm.trans (hvalue' spec hspec))]
  rw [hsame]

theorem LaidOut.congr {overrides' : Entries} (h : d.LaidOut overrides params)
    (hget : ∀ spec ∈ d.parameters, overrides'.get? spec.name = overrides.get? spec.name)
    (hunknown : d.unknown overrides' = d.unknown overrides) : d.LaidOut overrides' params := by
  obtain ⟨value, hvalue, rfl⟩ := h
  refine ⟨value, fun spec hspec => ?_, by rw [hunknown]⟩
  rw [settingOf, hget spec hspec]
  exact hvalue spec hspec

theorem unknown_append (overrides more : Entries) :
    d.unknown (overrides ++ more) = d.unknown overrides ++ d.unknown more :=
  filter_append ..

theorem unknown_eq_nil (hd : Consistent d.parameters) {known : Entries}
    (h : ∀ e ∈ known, ∃ spec ∈ d.parameters, e.1 = spec.name) : d.unknown known = [] := by
  refine filter_eq_nil_iff.mpr fun e he => ?_
  obtain ⟨spec, hspec, hname⟩ := h e he
  rw [(param?_eq_some hd).mpr ⟨hspec, hname⟩]
  exact Bool.false_ne_true

theorem unknown_singleton (hd : Consistent d.parameters) (hspec : spec ∈ d.parameters) :
    d.unknown [(spec.name, v)] = [] := by
  refine unknown_eq_nil hd fun e he => ⟨spec, hspec, ?_⟩
  rw [mem_singleton.mp he]

theorem defaults_eq_ok_of_consistent (hd : Consistent d.parameters) :
    d.defaults = .ok (ParamSpec.entries d.parameters (·.default)) := by
  have hhashable : d.parameters.all (·.name.hashable) = true := by
    refine all_eq_true.mpr fun spec hspec => ?_
    obtain ⟨name, hname⟩ := hd.named spec hspec
    rw [hname]
    rfl
  have hmerge : Entries.merge [] (ParamSpec.entries d.parameters (·.default)) =
      ParamSpec.entries d.parameters (·.default) :=
    Entries.merge_eq_append (hd.named_entries (·.default)) (by simp)
  rw [defaults, if_pos hhashable]
  exact congrArg _ hmerge

theorem laidOut_nil : d.LaidOut [] (ParamSpec.entries d.parameters (·.default)) :=
  ⟨(·.default), fun _ _ => rfl, (append_nil _).symm⟩

theorem get?_concat_self {done : Entries} (hspec : ∃ name : String, spec.name = .text name)
    (hfresh : done.has spec.name = false) :
    Entries.get? (done ++ [(spec.name, v)]) spec.name = some v := by
  obtain ⟨name, hname⟩ := hspec
  rw [hname] at hfresh ⊢
  have hnone : done.get? (.text name) = none := by
    rw [Entries.has_eq_isSome] at hfresh
    exact Option.isSome_eq_false_iff.mp hfresh |> Option.isNone_iff_eq_none.mp
  rw [Entries.get?_append, hnone, Option.none_or]
  simp

theorem get?_concat_of_ne {done : Entries} (hspec : ∃ name : String, spec.name = .text name)
    (hkey : key ≠ spec.name) :
    Entries.get? (done ++ [(key, v)]) spec.name = done.get? spec.name := by
  obtain ⟨name, hname⟩ := hspec
  rw [hname] at hkey ⊢
  have hnone : Entries.get? [(key, v)] (.text name) = none :=
    Entries.get?_eq_none_iff.mpr (by simpa using hkey)
  rw [Entries.get?_append, hnone, Option.or_none]

/-- A key that no schema knows is new, and comes to stand at the end. -/
theorem LaidOut.concat_unknown (hd : Consistent d.parameters) {done : Entries}
    (h : d.LaidOut done params) (hfresh : done.has key = false) (hparam : d.param? key = none) :
    d.LaidOut (done ++ [(key, v)]) (params.set key v) := by
  obtain ⟨value, hvalue, rfl⟩ := h
  have hne := (param?_eq_none hd).mp hparam
  have hunknown : d.unknown [(key, v)] = [(key, v)] := by simp [unknown, hparam]
  have hlacks : Entries.has (ParamSpec.entries d.parameters value ++ d.unknown done) key = false := by
    have hschemas : (ParamSpec.entries d.parameters value).has key = false := by
      rw [Bool.eq_false_iff, ne_eq, hd.has_entries]
      rintro ⟨spec, hspec, rfl⟩
      exact hne spec hspec rfl
    rw [Entries.has_append, hschemas, Bool.false_or, Entries.has_eq_false_iff]
    intro e he
    exact Entries.has_eq_false_iff.mp hfresh e (mem_filter.mp he).1
  refine ⟨value, fun spec hspec => ?_, ?_⟩
  · rw [settingOf, get?_concat_of_ne (hd.named spec hspec) (hne spec hspec)]
    exact hvalue spec hspec
  · rw [Entries.set_of_lacks hlacks, unknown_append, hunknown, append_assoc]

/-- A key of a schema is there from the start, and keeps its place. -/
theorem LaidOut.concat_known (hd : Consistent d.parameters) {done : Entries}
    (h : d.LaidOut done params) (hfresh : done.has spec.name = false) (hspec : spec ∈ d.parameters)
    (hw : spec.coerce v d.blockType = .ok w) :
    d.LaidOut (done ++ [(spec.name, v)]) (params.set spec.name w) := by
  obtain ⟨value, hvalue, rfl⟩ := h
  have hhas := (hd.has_entries value spec.name).mpr ⟨spec, hspec, rfl⟩
  refine ⟨fun s => if s.name.sameKey spec.name then w else value s, fun s hs => ?_, ?_⟩
  · by_cases hsame : s.name.sameKey spec.name = true
    · obtain rfl := inj_on_of_nodup_map hd.nodup hspec hs ((hd.sameKey_iff hs).mp hsame)
      rw [settingOf, get?_concat_self (hd.named spec hs) hfresh]
      simp only [hsame, if_true]
      exact hw
    · have hne : spec.name ≠ s.name := fun heq => hsame ((hd.sameKey_iff hs).mpr heq)
      rw [settingOf, get?_concat_of_ne (hd.named s hs) hne]
      simp only [hsame]
      exact hvalue s hs
  · rw [Entries.set_append_of_has hhas, hd.set_entries hspec, unknown_append,
      unknown_singleton hd hspec, append_nil]

/-- Laying one more override over settings that are laid out lays them out with it. -/
theorem LaidOut.concat (hd : Consistent d.parameters) {done : Entries}
    (h : d.LaidOut done params) (hfresh : done.has key = false)
    (hw : d.coerceOverride key v = .ok w) :
    d.LaidOut (done ++ [(key, v)]) (params.set key w) := by
  rw [coerceOverride] at hw
  cases hparam : d.param? key with
  | none =>
      rw [hparam] at hw
      obtain rfl := Except.ok.inj hw
      exact h.concat_unknown hd hfresh hparam
  | some spec =>
      rw [hparam] at hw
      obtain ⟨hspec, rfl⟩ := (param?_eq_some hd).mp hparam
      exact h.concat_known hd hfresh hspec hw

/-! ## Settings are laid out -/

/-- Settings are laid out, whichever overrides are laid over the defaults. -/
theorem effectiveParams_laidOut (hd : Consistent d.parameters) (hkeyed : overrides.Keyed)
    (h : d.effectiveParams overrides = .ok params) : d.LaidOut overrides params := by
  rw [effectiveParams, defaults_eq_ok_of_consistent hd, ok_bind] at h
  refine foldlM_induction (P := fun done params => Entries.Keyed done → d.LaidOut done params) ?_
    (fun _ => laidOut_nil) h hkeyed
  intro done e params params' hparams hstep hdone
  obtain ⟨w, hw, hstep⟩ := bind_eq_ok.mp hstep
  obtain rfl := Except.ok.inj hstep
  obtain ⟨hdone, -, hfresh⟩ := pairwise_append.mp hdone
  refine (hparams hdone).concat hd (Entries.has_eq_false_iff.mpr ?_) hw
  exact fun f hf => hfresh f hf e (mem_singleton_self e)

theorem exists_foldlM_set_iff (overrides params : Entries) :
    (∃ params', overrides.foldlM
      (fun params e => do .ok (params.set e.1 (← d.coerceOverride e.1 e.2))) params =
        .ok params') ↔ d.Reads overrides := by
  induction overrides generalizing params with
  | nil => simp [Reads, pure, Except.pure]
  | cons e rest ih =>
      rw [Reads, forall_mem_cons, ← Reads]
      constructor
      · rintro ⟨params', h⟩
        rw [foldlM_cons, bind_eq_ok] at h
        obtain ⟨next, hnext, h⟩ := h
        obtain ⟨w, hw, -⟩ := bind_eq_ok.mp hnext
        exact ⟨⟨w, hw⟩, (ih next).mp ⟨params', h⟩⟩
      · rintro ⟨⟨w, hw⟩, hrest⟩
        obtain ⟨params', h⟩ := (ih (params.set e.1 w)).mpr hrest
        exact ⟨params', by rw [foldlM_cons, hw]; exact h⟩

theorem exists_effectiveParams_iff (hd : Consistent d.parameters) :
    (∃ params, d.effectiveParams overrides = .ok params) ↔ d.Reads overrides := by
  rw [effectiveParams, defaults_eq_ok_of_consistent hd, ok_bind]
  exact exists_foldlM_set_iff overrides _

/-- There are settings just when every override of a known parameter can be read, and they are what
is laid out. -/
theorem effectiveParams_eq_ok_iff (hd : Consistent d.parameters) (hkeyed : overrides.Keyed) :
    d.effectiveParams overrides = .ok params ↔ d.Reads overrides ∧ d.LaidOut overrides params := by
  constructor
  · intro h
    exact ⟨(exists_effectiveParams_iff hd).mp ⟨params, h⟩, effectiveParams_laidOut hd hkeyed h⟩
  · rintro ⟨hreads, hlaid⟩
    obtain ⟨params', h⟩ := (exists_effectiveParams_iff hd).mpr hreads
    rw [h, (effectiveParams_laidOut hd hkeyed h).unique hlaid]

/-! ## Settings laid out again -/

theorem canonical_of_settingOf (hd : Consistent d.parameters) (hspec : spec ∈ d.parameters)
    (h : d.settingOf overrides spec = .ok v) : spec.Canonical v := by
  rw [settingOf] at h
  split at h
  · exact ParamSpec.coerce_canonical h
  · obtain rfl := Except.ok.inj h
    exact hd.defaults spec hspec

/-- A setting that is laid out is read as itself. -/
theorem coerce_setting (hd : Consistent d.parameters) (hspec : spec ∈ d.parameters)
    (h : d.settingOf overrides spec = .ok v) : spec.coerce v d.blockType = .ok v :=
  ParamSpec.coerce_of_canonical (hd.apart spec hspec) (canonical_of_settingOf hd hspec h) d.blockType

theorem LaidOut.reads (hd : Consistent d.parameters) (h : d.LaidOut overrides params) :
    d.Reads params := by
  obtain ⟨value, hvalue, rfl⟩ := h
  intro e he
  refine ⟨e.2, ?_⟩
  rw [coerceOverride]
  rcases mem_append.mp he with he | he
  · obtain ⟨spec, hspec, rfl⟩ := mem_map.mp he
    rw [(param?_eq_some hd).mpr ⟨hspec, rfl⟩]
    exact coerce_setting hd hspec (hvalue spec hspec)
  · rw [Option.isNone_iff_eq_none.mp (mem_filter.mp he).2]

theorem LaidOut.keyed (hd : Consistent d.parameters) (hkeyed : overrides.Keyed)
    (h : d.LaidOut overrides params) : params.Keyed := by
  obtain ⟨value, -, rfl⟩ := h
  refine pairwise_append.mpr ⟨(hd.named_entries value).keyed, hkeyed.filter _, ?_⟩
  intro e he f hf
  obtain ⟨spec, hspec, rfl⟩ := mem_map.mp he
  rw [Bool.eq_false_iff, ne_eq, hd.sameKey_iff hspec]
  exact (param?_eq_none hd).mp (Option.isNone_iff_eq_none.mp (mem_filter.mp hf).2) spec hspec

theorem LaidOut.again (hd : Consistent d.parameters) (h : d.LaidOut overrides params) :
    d.LaidOut params params := by
  obtain ⟨value, hvalue, rfl⟩ := h
  refine ⟨value, fun spec hspec => ?_, ?_⟩
  · rw [settingOf, hd.get?_entries hspec]
    exact coerce_setting hd hspec (hvalue spec hspec)
  · have hknown : d.unknown (ParamSpec.entries d.parameters value) = [] := by
      refine unknown_eq_nil hd fun e he => ?_
      obtain ⟨spec, hspec, rfl⟩ := mem_map.mp he
      exact ⟨spec, hspec, rfl⟩
    rw [unknown_append, hknown, nil_append, unknown, unknown, filter_filter]
    simp

/-- Settings are their own settings. -/
theorem effectiveParams_effectiveParams (hd : Consistent d.parameters) (hkeyed : overrides.Keyed)
    (h : d.effectiveParams overrides = .ok params) : d.effectiveParams params = .ok params := by
  have hlaid := effectiveParams_laidOut hd hkeyed h
  exact (effectiveParams_eq_ok_iff hd (hlaid.keyed hd hkeyed)).mpr ⟨hlaid.reads hd, hlaid.again hd⟩

/-! ## One override more -/

theorem unknown_erase (hd : Consistent d.parameters) (hspec : spec ∈ d.parameters)
    (overrides : Entries) : d.unknown (overrides.erase spec.name) = d.unknown overrides := by
  rw [unknown, Entries.erase, filter_filter]
  refine filter_congr fun e _ => ?_
  cases hparam : d.param? e.1 with
  | none =>
      obtain ⟨name, hname⟩ := hd.named spec hspec
      have hne : e.1.sameKey (.text name) = false :=
        Entries.sameKey_text_eq_false.mpr (hname ▸ (param?_eq_none hd).mp hparam spec hspec)
      rw [hname, hne]
      rfl
  | some other => rfl

theorem unknown_set (hd : Consistent d.parameters) (hspec : spec ∈ d.parameters)
    (overrides : Entries) (w : Value) :
    d.unknown (overrides.set spec.name w) = d.unknown overrides := by
  obtain ⟨name, hname⟩ := hd.named spec hspec
  have hknown : (d.param? spec.name).isNone = false := by
    rw [(param?_eq_some hd).mpr ⟨hspec, rfl⟩]
    rfl
  rw [hname] at hknown ⊢
  rw [unknown]
  induction overrides with
  | nil => simp [Entries.set, hknown, unknown]
  | cons e rest ih =>
      rw [Entries.set]
      split
      · rename_i hkey
        rw [Value.sameKey_text.mp hkey, filter_cons, unknown, filter_cons]
        simp [hknown, Value.sameKey_text.mp hkey]
      · rw [filter_cons, ih, unknown, unknown, filter_cons]

/-- Settings with an override under the name of a schema are those without it but for the value at
the place of the schema. -/
theorem LaidOut.set (hd : Consistent d.parameters) (hspec : spec ∈ d.parameters)
    (h : d.LaidOut (overrides.erase spec.name) params)
    (hw : d.coerceOverride spec.name w = .ok w) :
    d.LaidOut (overrides.set spec.name w) (params.set spec.name w) := by
  obtain ⟨name, hname⟩ := hd.named spec hspec
  have hlacks := Entries.erase_lacks overrides spec.name
  refine (h.concat hd hlacks hw).congr ?_ ?_
  · intro s hs
    obtain ⟨key, hkey⟩ := hd.named s hs
    by_cases hsame : spec.name = s.name
    · rw [← hsame, get?_concat_self (hd.named spec hspec) hlacks, hname, Entries.get?_set_self]
    · rw [get?_concat_of_ne (hd.named s hs) hsame]
      rw [hname, hkey] at hsame ⊢
      have hne : key ≠ name := fun heq => hsame (by rw [heq])
      rw [Entries.get?_set_of_ne _ _ hne, Entries.erase_eq_others, Entries.get?_others]
      simp [hne]
  · rw [unknown_set hd hspec, unknown_append, unknown_singleton hd hspec, append_nil,
      unknown_erase hd hspec]

/-- A parameter stands behind those of the schemas before its own. -/
theorem LaidOut.split (hd : Consistent d.parameters) (hspec : spec ∈ d.parameters)
    (h : d.LaidOut overrides params) :
    ∃ (front : Entries) (old : Value) (back : Entries), params = front ++ (spec.name, old) :: back ∧
      front.keys ++ [spec.name] <+: d.parameters.map (·.name) ∧
        ∀ w, params.set spec.name w = front ++ (spec.name, w) :: back := by
  obtain ⟨value, -, rfl⟩ := h
  obtain ⟨before, after, hsplit⟩ := append_of_mem hspec
  have hnodup := hd.nodup
  obtain ⟨name, hname⟩ := hd.named spec hspec
  rw [hsplit] at hnodup ⊢
  have hkeys : (ParamSpec.entries before value).keys = before.map (·.name) := by
    simp [ParamSpec.entries, Entries.keys]
  have hlacks : (ParamSpec.entries before value).has spec.name = false := by
    rw [Entries.has_eq_false_iff]
    intro e he
    obtain ⟨s, hs, rfl⟩ := mem_map.mp he
    rw [hname, Entries.sameKey_text_eq_false, ← hname]
    rw [map_append, map_cons] at hnodup
    exact (nodup_append.mp hnodup).2.2 _ (mem_map_of_mem hs) _ mem_cons_self
  refine ⟨ParamSpec.entries before value, value spec,
    ParamSpec.entries after value ++ d.unknown overrides, ?_, ?_, fun w => ?_⟩
  · simp [ParamSpec.entries]
  · rw [hkeys]
    exact ⟨after.map (·.name), by simp⟩
  · have hlist : ParamSpec.entries (before ++ spec :: after) value ++ d.unknown overrides =
        ParamSpec.entries before value ++
          ((spec.name, value spec) :: (ParamSpec.entries after value ++ d.unknown overrides)) := by
      simp [ParamSpec.entries]
    rw [hlist, Entries.set_append_of_lacks hlacks, Entries.set,
      if_pos ((hd.sameKey_iff hspec).mpr rfl)]

end BlockDefinition

/-! ## Stock blocks -/

/-- Is the name of the schema a text? -/
def ParamSpec.isNamed (spec : ParamSpec) : Bool := spec.name matches .text _

theorem ParamSpec.exists_name {spec : ParamSpec} (h : spec.isNamed = true) :
    ∃ name : String, spec.name = .text name := by
  rw [isNamed] at h
  cases hname : spec.name with
  | text name => exact ⟨name, rfl⟩
  | _ =>
      rw [hname] at h
      cases h

/-- Is the default in canonical form? A whole number is if it has no more than 53 bits. -/
def ParamSpec.keepsDefault (spec : ParamSpec) : Bool :=
  match spec.kind, spec.default with
  | .integer, .int n => decide (n.natAbs < 2 ^ 53) && spec.within (.whole n)
  | .real, .real x => spec.within (.real x)
  | .boolean, .bool _ => true
  | .choice, .text s => spec.options.any fun option => option.sameKey (.text s)
  | .string, .text _ => true
  | _, _ => false

theorem ParamSpec.canonical_default {spec : ParamSpec} (h : spec.keepsDefault = true) :
    spec.Canonical spec.default := by
  rw [keepsDefault] at h
  rw [Canonical]
  split at h
  · rename_i n hkind hdefault
    obtain ⟨hsmall, hwithin⟩ := Bool.and_eq_true_iff.mp h
    rw [hkind, hdefault]
    exact ⟨n, rfl, ⟨n.natAbs, 0, by simp, of_decide_eq_true hsmall, by decide⟩,
      (within_iff.mp hwithin).1⟩
  · rename_i x hkind hdefault
    rw [hkind, hdefault]
    exact ⟨x, rfl, (within_iff.mp h).1⟩
  · rename_i b hkind hdefault
    rw [hkind, hdefault]
    exact ⟨b, rfl⟩
  · rename_i s hkind hdefault
    rw [hkind, hdefault]
    obtain ⟨option, hoption, hkey⟩ := any_eq_true.mp h
    rw [← Value.sameKey_text.mp hkey]
    exact hoption
  · rename_i s hkind hdefault
    rw [hkind, hdefault]
    exact ⟨s, rfl⟩
  · cases h

namespace Stock

theorem consistent {t : String} {d : BlockDefinition} (h : catalog.get? t = some d) :
    Consistent d.parameters := by
  have hspecs : ∀ d ∈ definitions, ∀ spec ∈ d.parameters, spec.isNamed = true ∧
      spec.keepsDefault = true ∧ spec.options.Pairwise fun earlier later =>
        ParamSpec.matchesOption later earlier = false := by
    decide +kernel
  have hnames : ∀ d ∈ definitions, d.parameters.Pairwise fun earlier later =>
      earlier.name.sameKey later.name = false := by
    decide +kernel
  have hmem := mem_of_find?_eq_some h
  have hnamed : ∀ spec ∈ d.parameters, ∃ name : String, spec.name = .text name :=
    fun spec hspec => ParamSpec.exists_name (hspecs d hmem spec hspec).1
  refine ⟨hnamed, ?_, fun spec hspec => ParamSpec.canonical_default (hspecs d hmem spec hspec).2.1,
    fun spec hspec _ => (hspecs d hmem spec hspec).2.2⟩
  refine pairwise_map.mpr ((hnames d hmem).imp_of_mem fun {spec other} _ hother hne heq => ?_)
  obtain ⟨name, hname⟩ := hnamed other hother
  rw [heq, hname, Value.sameKey_text.mpr rfl] at hne
  cases hne

end Stock

end BlockNet
