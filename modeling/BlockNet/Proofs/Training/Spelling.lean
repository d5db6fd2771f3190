import BlockNet.Proofs.Training.Config

/-! # Spellings of a configuration

Of several keys for a field the last one counts, and a key that spells no field counts for nothing.
Entries make a configuration by what they give to its fields alone, so the fields of a configuration
make it again, under any of their spellings and in any order. -/

namespace BlockNet

open List

/-! ## Names -/

theorem Method.ofValue_eq_ok {v : Value} {m : Method} :
    Method.ofValue v = .ok m ↔ Text.lowered v.plain = m.name := by
  rw [ofValue]
  split
  · rename_i hname
    rw [hname]
    cases m <;> simp [name]
  · rename_i hname
    rw [hname]
    cases m <;> simp [name]
  · rename_i hsgd hadam
    refine ⟨nofun, fun hname => ?_⟩
    cases m with
    | sgd => exact absurd hname hsgd
    | adam => exact absurd hname hadam

/-- The letters that tell objectives apart: without letter case and joining marks. -/
def Objective.letters (v : Value) : String :=
  Text.lowered (String.ofList (v.plain.toList.filter fun c => c != '_' && c != '-'))

theorem Objective.mem_spellings_of_ofValue {v : Value} {o : Objective}
    (h : Objective.ofValue v = .ok o) : (Objective.letters v, o) ∈ Objective.spellings := by
  simp only [ofValue] at h
  split at h
  · rename_i found hfound
    obtain ⟨e, he, rfl⟩ := Option.map_eq_some_iff.mp hfound
    obtain rfl := Except.ok.inj h
    have hkey : e.1 = letters v := by simpa [letters] using find?_some he
    rw [← hkey]
    exact mem_of_find?_eq_some he
  · cases h

theorem Objective.ofValue_name (o : Objective) : Objective.ofValue (.text o.name) = .ok o := by
  cases o <;> rfl

namespace TrainingConfig

variable {entries more : Entries} {c : TrainingConfig} {f g : Field} {key v w : Value}

/-! ## Keys -/

namespace Field

/-- The ways to write a field. -/
def spellings (f : Field) : List String := f.name :: f.aliases

/-- The key is a way to write the field. -/
def Spelled (f : Field) (key : Value) : Prop := ∃ name ∈ f.spellings, key = .text name

theorem mem_all (f : Field) : f ∈ all := by cases f <;> decide

theorem filter_all (f : Field) : all.filter (· = f) = [f] := by cases f <;> decide

/-- No text is a way to write two fields. -/
theorem nodup_spellings : (all.flatMap spellings).Nodup := by decide

theorem eq_of_mem_spellings {name : String} (hf : name ∈ f.spellings) (hg : name ∈ g.spellings) :
    f = g := by
  by_contra hne
  have hsymm : Std.Symm (Function.onFun Disjoint spellings) := ⟨fun _ _ h => h.symm⟩
  exact (nodup_flatMap.mp nodup_spellings).2.forall (mem_all f) (mem_all g) hne hf hg

theorem ofKey?_eq_some_iff : ofKey? key = some f ↔ f.Spelled key := by
  have hany : ∀ g : Field, ((g.name :: g.aliases).any fun name => key.sameKey name) = true ↔
      g.Spelled key := by
    intro g
    rw [any_eq_true]
    exact exists_congr fun name => and_congr_right fun _ => Value.sameKey_text
  constructor
  · intro h
    rw [ofKey?] at h
    have hspelled := find?_some h
    exact (hany f).mp hspelled
  · rintro ⟨name, hname, rfl⟩
    have hfound : (ofKey? (.text name)).isSome = true :=
      find?_isSome.mpr ⟨f, mem_all f, (hany f).mpr ⟨name, hname, rfl⟩⟩
    obtain ⟨g, hg⟩ := Option.isSome_iff_exists.mp hfound
    rw [hg]
    rw [ofKey?] at hg
    have hspelled := find?_some hg
    obtain ⟨name', hname', hsame⟩ := (hany g).mp hspelled
    obtain rfl := Value.text.inj hsame
    rw [eq_of_mem_spellings hname hname']

/-- What a configuration makes of the value of a field: the optimizer and the loss come under one
name each, and everything else is kept. -/
def Reads (f : Field) (v w : Value) : Prop :=
  match f with
  | .optimizer => w = .text (Text.lowered v.plain)
  | .loss => ∃ o, (Objective.letters v, o) ∈ Objective.spellings ∧ w = .text o.name
  | _ => w = v

theorem reads_of_ne (hmethod : f ≠ .optimizer) (hloss : f ≠ .loss) : f.Reads v w ↔ w = v := by
  cases f with
  | optimizer => exact absurd rfl hmethod
  | loss => exact absurd rfl hloss
  | _ => exact Iff.rfl

end Field

/-! ## What entries give -/

/-- What entries say about a field in the end: the value of the last key for it, or the default if
there is no key for it. -/
def Settles (entries : Entries) (f : Field) (v : Value) : Prop :=
  (∃ front key back, entries = front ++ (key, v) :: back ∧ f.Spelled key ∧
      ∀ e ∈ back, ¬f.Spelled e.1) ∨
    (∀ e ∈ entries, ¬f.Spelled e.1) ∧ v = f.default

/-- Entries with others put in anywhere that spell no field. -/
inductive Padded : Entries → Entries → Prop
  | nil : Padded [] []
  | keep (e : Value × Value) {entries more : Entries} :
      Padded entries more → Padded (e :: entries) (e :: more)
  | insert {e : Value × Value} {entries more : Entries} (h : ∀ f : Field, ¬f.Spelled e.1) :
      Padded entries more → Padded entries (e :: more)

/-- The entries for a field. -/
def entriesFor (entries : Entries) (f : Field) : Entries :=
  entries.filter fun e => Field.ofKey? e.1 = some f

theorem given_eq (entries : Entries) (f : Field) :
    given entries f = ((entriesFor entries f).getLast?.map (·.2)).getD f.default := by
  rw [given, entriesFor, ← head?_filter, filter_reverse, head?_reverse]

theorem given_settles (entries : Entries) (f : Field) : Settles entries f (given entries f) := by
  rw [given]
  cases hlast : entries.reverse.find? fun e => Field.ofKey? e.1 = some f with
  | none =>
      refine .inr ⟨fun e he => ?_, rfl⟩
      have hnone := find?_eq_none.mp hlast e (mem_reverse.mpr he)
      rwa [decide_eq_true_eq, Field.ofKey?_eq_some_iff] at hnone
  | some e =>
      obtain ⟨hkey, back, front, hsplit, hback⟩ := find?_eq_some_iff_append.mp hlast
      refine .inl ⟨front.reverse, e.1, back.reverse, ?_, ?_, fun e' he' => ?_⟩
      · rw [← reverse_reverse entries, hsplit]
        simp
      · exact Field.ofKey?_eq_some_iff.mp (of_decide_eq_true hkey)
      · have hother := hback e' (mem_reverse.mp he')
        rwa [Bool.not_eq_true', decide_eq_false_iff_not, Field.ofKey?_eq_some_iff] at hother

theorem Padded.entriesFor_eq (h : Padded entries more) (f : Field) :
    entriesFor more f = entriesFor entries f := by
  induction h with
  | nil => rfl
  | keep e _ ih =>
      simp only [entriesFor] at ih ⊢
      rw [filter_cons, filter_cons, ih]
  | insert hunknown _ ih =>
      rw [entriesFor, filter_cons_of_neg, ← entriesFor, ih]
      rw [decide_eq_true_eq, Field.ofKey?_eq_some_iff]
      exact hunknown f

/-- The fields of a configuration, each under a spelling of its own choice. -/
def respelled (c : TrainingConfig) (spell : Field → String) : Entries :=
  Field.all.map fun f => (.text (spell f), c.get f)

/-- Under one key for each field, every field is given its value, in whatever order they stand. -/
theorem given_of_perm_respelled {spell : Field → String} (hspell : ∀ f, spell f ∈ f.spellings)
    (h : entries ~ respelled c spell) (f : Field) : given entries f = c.get f := by
  have hone : entriesFor (respelled c spell) f = [(.text (spell f), c.get f)] := by
    have hkey : ∀ g, Field.ofKey? (.text (spell g)) = some f ↔ g = f := by
      intro g
      rw [Field.ofKey?_eq_some_iff]
      constructor
      · rintro ⟨name, hname, hsame⟩
        obtain rfl := Value.text.inj hsame
        exact Field.eq_of_mem_spellings (hspell g) hname
      · rintro rfl
        exact ⟨spell g, hspell g, rfl⟩
    rw [entriesFor, respelled, filter_map]
    have hfilter : (Field.all.filter ((fun e : Value × Value => decide (Field.ofKey? e.1 = some f)) ∘
        fun g => (Value.text (spell g), c.get g))) = [f] := by
      rw [← Field.filter_all f]
      exact filter_congr fun g _ => by simp [hkey]
    rw [hfilter]
    rfl
  have hperm : entriesFor entries f ~ [(.text (spell f), c.get f)] := hone ▸ h.filter _
  rw [given_eq, perm_singleton.mp hperm]
  rfl

/-! ## Configurations -/

/-- Entries make a configuration by what they give to its fields. -/
theorem ofEntries_congr (h : ∀ f, given more f = given entries f) :
    ofEntries more = ofEntries entries := by
  have hgiven : given more = given entries := funext h
  simp only [ofEntries, hgiven]

theorem Follows.reads (h : c.Follows entries) (f : Field) : f.Reads (given entries f) (c.get f) := by
  by_cases hmethod : f = .optimizer
  · subst hmethod
    exact congrArg Value.text (Method.ofValue_eq_ok.mp h.optimizer).symm
  by_cases hloss : f = .loss
  · subst hloss
    exact ⟨c.loss, Objective.mem_spellings_of_ofValue h.loss, rfl⟩
  exact (Field.reads_of_ne hmethod hloss).mpr (h.others f hmethod hloss).symm

/-- A configuration follows from its own fields. -/
theorem follows_of_get (h : ∀ f, given entries f = c.get f) : c.Follows entries := by
  refine ⟨?_, ?_, fun f _ _ => h f⟩
  · rw [h, Method.ofValue_eq_ok]
    cases hmethod : c.optimizer <;> simp only [get, hmethod] <;> rfl
  · rw [h]
    exact c.loss.ofValue_name

/-- How entries decide on a configuration. For every field it holds what the last key for it says, or
the default; keys that spell no field make no difference, wherever they stand; and its own fields,
each under any of its spellings and in any order, give it again. -/
structure Determined (c : TrainingConfig) (entries : Entries) : Prop where
  settled : ∀ f, ∃ v, Settles entries f v ∧ f.Reads v (c.get f)
  padded : ∀ more, Padded entries more → ofEntries more = .ok c
  again : ∀ spell : Field → String, (∀ f, spell f ∈ f.spellings) →
    ∀ again, again ~ respelled c spell → ofEntries again = .ok c

/-- Whatever entries are accepted, they decide on the configuration in this way. -/
theorem ofEntries_determined (h : ofEntries entries = .ok c) : c.Determined entries := by
  obtain ⟨hfollows, hpasses⟩ := ofEntries_eq_ok.mp h
  refine ⟨fun f => ⟨given entries f, given_settles entries f, hfollows.reads f⟩, ?_, ?_⟩
  · intro more hmore
    have hgiven : ∀ f, given more f = given entries f := by
      intro f
      rw [given_eq, given_eq, hmore.entriesFor_eq]
    rw [ofEntries_congr hgiven]
    exact h
  · intro spell hspell again hagain
    exact ofEntries_eq_ok.mpr
      ⟨follows_of_get (given_of_perm_respelled hspell hagain), hpasses⟩

/-- Entries that spell a field twice and come to names in letters of their own, with one key that is
not known and a number that is none. -/
def mixed : Entries :=
  [("lr", .real 0.1), ("color", .text "red"), ("loss", .text "Mean-Squared_Error"),
    ("momentum", .real (0.0 / 0.0)), ("learning_rate", .real 0.01), ("optimizer", .text "SGD")]

theorem ofEntries_determined_mixed : ∃ c, ofEntries mixed = .ok c ∧ c.Determined mixed := by
  have hmade : (ofEntries mixed).toOption.isSome = true := by decide +kernel
  obtain ⟨c, hc⟩ := Option.isSome_iff_exists.mp hmade
  have h := toOption_eq_some.mp hc
  exact ⟨c, h, ofEntries_determined h⟩

end TrainingConfig

end BlockNet
