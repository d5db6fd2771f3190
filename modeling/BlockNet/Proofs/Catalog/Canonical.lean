import BlockNet.Proofs.Catalog.Exactness

/-! # Canonical forms

What a schema makes of a value is in the schema's canonical form, and of a value in canonical form
the schema makes that value again. So reading a value twice is reading it once. -/

namespace BlockNet.ParamSpec

variable {spec : ParamSpec} {options : List Value} {v w : Value} {blockType : String}

/-- A value as a schema gives it back: of the kind and within what the bounds let pass, and a whole
number only if it is a double. -/
def Canonical (spec : ParamSpec) (w : Value) : Prop :=
  match spec.kind with
  | .integer => ∃ n, w = .int n ∧ Binary.Exact n ∧ spec.withinBounds (.whole n) = .ok (.ok w)
  | .real => ∃ x, w = .real x ∧ spec.withinBounds (.real x) = .ok (.ok w)
  | .boolean => ∃ b, w = .bool b
  | .choice => w ∈ spec.options
  | .string => ∃ s, w = .text s

/-! ## What is given back is canonical -/

theorem coerce_canonical (h : spec.coerce v blockType = .ok w) : spec.Canonical w := by
  have hadmits := coerce_admits h
  cases hkind : spec.kind with
  | integer =>
      obtain ⟨x, n, -, hn, hbounds⟩ := (coerce_integer_eq_ok hkind).mp h
      obtain rfl := (withinBounds_eq_ok_iff.mp hbounds).1
      rw [Canonical, hkind]
      exact ⟨n, rfl, hn.exact, hbounds⟩
  | real =>
      obtain ⟨x, number, -, hnumber, hbounds⟩ := (coerce_number_eq_ok (.inr hkind)).mp h
      rw [hkind] at hnumber
      obtain rfl := Except.ok.inj hnumber
      obtain rfl := (withinBounds_eq_ok_iff.mp hbounds).1
      rw [Canonical, hkind]
      exact ⟨x, rfl, hbounds⟩
  | boolean | choice | string =>
      rw [Admits, hkind] at hadmits
      rw [Canonical, hkind]
      exact hadmits

/-! ## What is canonical is given back -/

/-- No option is equal to an earlier one, or has the text of an earlier one. -/
def Apart (options : List Value) : Prop :=
  options.Pairwise fun earlier later => matchesOption later earlier = false

theorem matchesOption_self (v : Value) : matchesOption v v = true := by
  rw [matchesOption, beq_self_eq_true, Bool.or_true]

/-- Of options that are apart, each means itself and none before it. -/
theorem readChoice_of_mem (hoptions : Apart options) (hw : w ∈ options) :
    readChoice options w = .ok w := by
  obtain ⟨before, after, rfl⟩ := List.append_of_mem hw
  have hfind : (before ++ w :: after).find? (matchesOption w) = some w := by
    refine List.find?_eq_some_iff_append.mpr ⟨matchesOption_self w, before, after, rfl, ?_⟩
    intro option hoption
    rw [(List.pairwise_append.mp hoptions).2.2 option hoption w List.mem_cons_self]
    rfl
  rw [readChoice, hfind]

theorem coerce_of_canonical (hoptions : spec.kind = .choice → Apart spec.options)
    (hw : spec.Canonical w) (blockType : String) : spec.coerce w blockType = .ok w := by
  cases hkind : spec.kind with
  | integer =>
      rw [Canonical, hkind] at hw
      obtain ⟨n, rfl, hexact, hbounds⟩ := hw
      obtain ⟨x, hx, hstands⟩ := hexact.exists_float
      exact (coerce_integer_eq_ok hkind).mpr ⟨x, n, readNumber_int hx, hstands, hbounds⟩
  | real =>
      rw [Canonical, hkind] at hw
      obtain ⟨x, rfl, hbounds⟩ := hw
      rw [coerce_number_eq_ok (.inr hkind), hkind]
      exact ⟨x, .real x, rfl, rfl, hbounds⟩
  | boolean =>
      rw [Canonical, hkind] at hw
      obtain ⟨b, rfl⟩ := hw
      rw [coerce_eq_ok, read, hkind]
      rfl
  | choice =>
      rw [Canonical, hkind] at hw
      rw [coerce_eq_ok, read, hkind]
      exact congrArg Except.ok (readChoice_of_mem (hoptions hkind) hw)
  | string =>
      rw [Canonical, hkind] at hw
      obtain ⟨s, rfl⟩ := hw
      rw [coerce_eq_ok, read, hkind]
      rfl

/-- Reading what a schema has read, whoever asks for it, gives the same value again. -/
theorem coerce_coerce (hoptions : spec.kind = .choice → Apart spec.options)
    (h : spec.coerce v blockType = .ok w) (name : String) : spec.coerce w name = .ok w :=
  coerce_of_canonical hoptions (coerce_canonical h) name

/-- A choice among options of several types. -/
def level : ParamSpec :=
  ⟨"level", .choice, .bool true, [.bool true, .int 2, .text "high"], .null, .null, ""⟩

/-- One is equal to true, so it is read as true, and true is read as true. -/
theorem coerce_coerce_level : level.coerce (.int 1) "?" = .ok (.bool true) ∧
    level.coerce (.bool true) "Dense" = .ok (.bool true) := by
  have h : level.coerce (.int 1) "?" = .ok (.bool true) := by rfl
  have happart : Apart level.options := by
    simp only [Apart, level]
    decide +kernel
  exact ⟨h, coerce_coerce (fun _ => happart) h "Dense"⟩

end BlockNet.ParamSpec
