import BlockNet.Proofs.Catalog.Settings

/-! # Settings that cannot be read

Reading a value by a schema gives a value, or it says why the value does not fit. The one thing that
comes between is a whole number beyond all doubles under a schema of numbers: numbers are read as
doubles first, and that reading fails in its own way. -/

namespace BlockNet

/-! ## Values -/

namespace ParamSpec

/-- The bounds of a schema are numbers, where there are any. -/
def bounded (spec : ParamSpec) : Bool :=
  (spec.minimum matches .null || spec.minimum.number?.isSome) &&
    (spec.maximum matches .null || spec.maximum.number?.isSome)

/-- A whole number beyond all doubles, where a number is to be read. -/
structure Overflows (spec : ParamSpec) (v : Value) : Prop where
  numeric : spec.kind = .integer ∨ spec.kind = .real
  beyond : ∃ k, v = .int k ∧ nearestFloat? k = none

theorem readNumber_eq_error {v : Value} {fault : Fault} :
    readNumber v = .error fault ↔
      fault = .mishap .tooLarge ∧ ∃ k, v = .int k ∧ nearestFloat? k = none := by
  cases v with
  | int k =>
      cases hk : nearestFloat? k with
      | none => simp [readNumber, unpadded, Value.toFloat, hk, orMishap, mishap, eq_comm]
      | some x => simp [readNumber, unpadded, Value.toFloat, hk, orMishap]
  | text s =>
      cases hs : Numeral.real? (Text.trimmed s) <;>
        simp [readNumber, unpadded, Value.toFloat, hs, orMishap, mishap]
  | _ => simp [readNumber, unpadded, Value.toFloat, mishap]

theorem fails_eq_ok (beyond : Number → Number → Bool) (number : Number) {bound : Value}
    (h : (bound matches .null || bound.number?.isSome) = true) :
    ∃ b, fails beyond number bound = .ok b := by
  cases bound with
  | null => exact ⟨_, rfl⟩
  | bool | int | real => exact ⟨_, rfl⟩
  | _ => cases h

theorem exists_withinBounds {spec : ParamSpec} (h : spec.bounded = true) (number : Number) :
    ∃ r, spec.withinBounds number = .ok r := by
  obtain ⟨hmin, hmax⟩ := Bool.and_eq_true_iff.mp h
  obtain ⟨low, hlow⟩ := fails_eq_ok Number.lt number hmin
  obtain ⟨high, hhigh⟩ := fails_eq_ok (fun n high => high.lt n) number hmax
  rw [withinBounds, hlow, ok_bind]
  cases low with
  | true => exact ⟨_, rfl⟩
  | false =>
      simp only [Bool.false_eq_true, if_false, hhigh, ok_bind]
      cases high with
      | true => exact ⟨_, rfl⟩
      | false => exact ⟨_, rfl⟩

/-- Reading comes to an answer unless the value overflows. -/
theorem read_eq_error {spec : ParamSpec} (h : spec.bounded = true) {v : Value} {fault : Fault} :
    spec.read v = .error fault ↔ fault = .mishap .tooLarge ∧ spec.Overflows v := by
  have hnumber : (spec.kind = .integer ∨ spec.kind = .real) →
      (spec.read v = .error fault ↔ readNumber v = .error fault) := by
    intro hkind
    rw [read]
    split
    · simp_all
    · simp_all
    · simp_all
    · cases readNumber v with
      | error f =>
          constructor
          · intro hfault
            rw [Except.error.inj hfault]
          · intro hfault
            rw [Except.error.inj hfault]
            rfl
      | ok r =>
          rw [ok_bind]
          constructor
          · intro hfault
            split at hfault
            · rename_i number _
              obtain ⟨w, hw⟩ := exists_withinBounds h number
              rw [hw] at hfault
              cases hfault
            · cases hfault
          · rintro ⟨⟩
  constructor
  · intro hfault
    have hkind : spec.kind = .integer ∨ spec.kind = .real := by
      cases hk : spec.kind with
      | integer => exact .inl rfl
      | real => exact .inr rfl
      | _ => simp [read, hk] at hfault
    obtain ⟨rfl, hbeyond⟩ := readNumber_eq_error.mp ((hnumber hkind).mp hfault)
    exact ⟨rfl, hkind, hbeyond⟩
  · rintro ⟨rfl, hkind, hbeyond⟩
    exact (hnumber hkind).mpr (readNumber_eq_error.mpr ⟨rfl, hbeyond⟩)

/-- A value is coerced, refused with the name of the parameter, or it overflows. -/
theorem coerce_eq_error {spec : ParamSpec} (h : spec.bounded = true) {v : Value} {t : String}
    {fault : Fault} (hfault : spec.coerce v t = .error fault) :
    (fault = .mishap .tooLarge ∧ spec.Overflows v) ∨
      ∃ reason, fault = .invalidParameter t spec.name reason := by
  rw [coerce] at hfault
  cases hread : spec.read v with
  | error f =>
      rw [hread] at hfault
      obtain rfl := Except.error.inj hfault
      exact .inl ((read_eq_error h).mp hread)
  | ok r =>
      rw [hread, ok_bind] at hfault
      cases r with
      | ok w => cases hfault
      | error reason => exact .inr ⟨reason, (Except.error.inj hfault).symm⟩

theorem coerce_overflow {spec : ParamSpec} (h : spec.bounded = true) {v : Value}
    (hv : spec.Overflows v) (t : String) : spec.coerce v t = .error (.mishap .tooLarge) := by
  rw [coerce, (read_eq_error h).mpr ⟨rfl, hv⟩]
  rfl

end ParamSpec

/-! ## Overrides -/

namespace BlockDefinition

/-- All schemas of a block can be read by: their names are keys, and their bounds are numbers. -/
structure Readable (d : BlockDefinition) : Prop where
  hashable : ∀ spec ∈ d.parameters, spec.name.hashable = true
  bounded : ∀ spec ∈ d.parameters, spec.bounded = true

/-- Overrides among which one overflows, after others that are read without fault. -/
inductive Overflows (d : BlockDefinition) : Entries → Prop where
  | here (key value : Value) (rest : Entries) (spec : ParamSpec)
      (hspec : d.param? key = some spec) (hvalue : spec.Overflows value) :
      Overflows d ((key, value) :: rest)
  | later (key value w : Value) (rest : Entries) (hread : d.coerceOverride key value = .ok w)
      (hrest : Overflows d rest) : Overflows d ((key, value) :: rest)

variable {d : BlockDefinition}

theorem coerceOverride_eq_error (hd : d.Readable) {key value : Value} {fault : Fault}
    (h : d.coerceOverride key value = .error fault) :
    (fault = .mishap .tooLarge ∧ ∃ spec, d.param? key = some spec ∧ spec.Overflows value) ∨
      ∃ spec ∈ d.parameters, ∃ reason,
        fault = .invalidParameter d.blockType spec.name reason := by
  rw [coerceOverride] at h
  cases hspec : d.param? key with
  | none =>
      rw [hspec] at h
      cases h
  | some spec =>
      rw [hspec] at h
      have hmem := List.mem_of_find?_eq_some hspec
      rcases ParamSpec.coerce_eq_error (hd.bounded spec hmem) h with ⟨hfault, hv⟩ | ⟨reason, hfault⟩
      · exact .inl ⟨hfault, spec, rfl, hv⟩
      · exact .inr ⟨spec, hmem, reason, hfault⟩

/-- Settings with overrides laid over them, one after the other. -/
theorem foldlM_set_eq_error (hd : d.Readable) {overrides params : Entries} {fault : Fault}
    (h : overrides.foldlM
      (fun params e => do .ok (params.set e.1 (← d.coerceOverride e.1 e.2))) params =
        .error fault) :
    (fault = .mishap .tooLarge ∧ d.Overflows overrides) ∨
      ∃ spec ∈ d.parameters, ∃ reason,
        fault = .invalidParameter d.blockType spec.name reason := by
  induction overrides generalizing params with
  | nil => cases h
  | cons e rest ih =>
      rw [List.foldlM_cons] at h
      cases hread : d.coerceOverride e.1 e.2 with
      | error f =>
          rw [hread] at h
          obtain rfl := Except.error.inj h
          rcases coerceOverride_eq_error hd hread with ⟨hfault, spec, hspec, hv⟩ | hinvalid
          · exact .inl ⟨hfault, .here e.1 e.2 rest spec hspec hv⟩
          · exact .inr hinvalid
      | ok w =>
          rw [hread] at h
          exact (ih h).imp_left fun ⟨hfault, hrest⟩ => ⟨hfault, .later e.1 e.2 w rest hread hrest⟩

theorem foldlM_set_overflow (hd : d.Readable) {overrides : Entries} (h : d.Overflows overrides)
    (params : Entries) :
    overrides.foldlM
      (fun params e => do .ok (params.set e.1 (← d.coerceOverride e.1 e.2))) params =
        .error (.mishap .tooLarge) := by
  induction h generalizing params with
  | here key value rest spec hspec hvalue =>
      have hbounded := hd.bounded spec (List.mem_of_find?_eq_some hspec)
      rw [List.foldlM_cons, coerceOverride, hspec]
      simp only [ParamSpec.coerce_overflow hbounded hvalue]
      rfl
  | later key value w rest hread hrest ih =>
      rw [List.foldlM_cons, hread]
      exact ih _

theorem defaults_eq_ok (hd : d.Readable) : ∃ params, d.defaults = .ok params := by
  rw [defaults, if_pos (List.all_eq_true.mpr hd.hashable)]
  exact ⟨_, rfl⟩

/-- Settings that cannot be made are refused with the name of a parameter, or one overflows. -/
theorem effectiveParams_eq_error (hd : d.Readable) {overrides : Entries} {fault : Fault}
    (h : d.effectiveParams overrides = .error fault) :
    (fault = .mishap .tooLarge ∧ d.Overflows overrides) ∨
      ∃ spec ∈ d.parameters, ∃ reason,
        fault = .invalidParameter d.blockType spec.name reason := by
  obtain ⟨params, hparams⟩ := defaults_eq_ok hd
  rw [effectiveParams, hparams] at h
  exact foldlM_set_eq_error hd h

theorem effectiveParams_overflow (hd : d.Readable) {overrides : Entries}
    (h : d.Overflows overrides) : d.effectiveParams overrides = .error (.mishap .tooLarge) := by
  obtain ⟨params, hparams⟩ := defaults_eq_ok hd
  rw [effectiveParams, hparams]
  exact foldlM_set_overflow hd h params

end BlockDefinition

/-! ## Stock blocks -/

namespace Stock

theorem readable {t : String} {d : BlockDefinition} (h : catalog.get? t = some d) :
    d.Readable := by
  have hall : ∀ d ∈ definitions, ∀ spec ∈ d.parameters,
      spec.name.hashable = true ∧ spec.bounded = true := by
    decide +kernel
  have hmem := List.mem_of_find?_eq_some h
  exact ⟨fun spec hspec => (hall d hmem spec hspec).1, fun spec hspec => (hall d hmem spec hspec).2⟩

end Stock

end BlockNet
