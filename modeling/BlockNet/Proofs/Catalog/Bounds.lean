import BlockNet.Proofs.Catalog.Settings
import BlockNet.Proofs.Value.Order

/-! # Bounds

A number that a schema reads is beyond none of its bounds. It is also within them, unless it or one
of the bounds is no number: what is no number is beyond nothing and within nothing. -/

namespace BlockNet.ParamSpec

variable {spec : ParamSpec} {number : Number} {v w : Value} {blockType : String}

/-! ## What a bound asks for -/

/-- Does a bound hold? Null is no bound, and a value that is not numeric bounds nothing. -/
def meets (holds : Number → Bool) : Value → Bool
  | .null => true
  | bound => bound.number?.any holds

/-- Is the number at least the minimum and at most the maximum, where these are set? -/
def within (spec : ParamSpec) (number : Number) : Bool :=
  meets (·.le number) spec.minimum && meets (number.le ·) spec.maximum

/-- Is every bound that is set held against a number, neither of the two a NaN? -/
def comparable (spec : ParamSpec) (number : Number) : Bool :=
  meets (fun low => !low.isNaN && !number.isNaN) spec.minimum &&
    meets (fun high => !number.isNaN && !high.isNaN) spec.maximum

theorem fails_eq_false (beyond : Number → Number → Bool) {bound : Value} :
    fails beyond number bound = .ok false ↔ meets (fun b => !beyond number b) bound = true := by
  cases bound with
  | null => exact iff_of_true rfl rfl
  | bool | int | real => simp [fails, meets, Value.number?, orMishap, ok_bind]
  | _ => simp [fails, meets, Value.number?, orMishap, mishap, bind, Except.bind]

theorem meets_and (p q : Number → Bool) (bound : Value) :
    meets (fun b => p b && q b) bound = (meets p bound && meets q bound) := by
  cases bound <;> simp [meets, Value.number?]

theorem withinBounds_eq_ok_iff : spec.withinBounds number = .ok (.ok w) ↔
    w = number.toValue ∧ meets (fun low => !number.lt low) spec.minimum = true ∧
      meets (fun high => !high.lt number) spec.maximum = true := by
  rw [← fails_eq_false Number.lt, ← fails_eq_false fun n high => high.lt n]
  refine ⟨withinBounds_eq_ok, ?_⟩
  rintro ⟨rfl, hlow, hhigh⟩
  rw [withinBounds, hlow, ok_bind, hhigh]
  rfl

/-- A number is within bounds just when it passes the check of the bounds and compares with them. -/
theorem within_iff : spec.within number = true ↔
    spec.withinBounds number = .ok (.ok number.toValue) ∧ spec.comparable number = true := by
  have hle : ∀ a b : Number, a.le b = (!b.lt a && (!a.isNaN && !b.isNaN)) := by
    intro a b
    rw [Bool.eq_iff_iff, Number.le_iff]
    simp
  simp only [within, comparable, withinBounds_eq_ok_iff, hle, meets_and, Bool.and_eq_true, true_and]
  tauto

/-! ## Reading numbers -/

theorem coerce_eq_ok : spec.coerce v blockType = .ok w ↔ spec.read v = .ok (.ok w) := by
  rw [coerce, bind_eq_ok]
  constructor
  · rintro ⟨result, hread, h⟩
    cases result with
    | error reason => cases h
    | ok u =>
        obtain rfl := Except.ok.inj h
        exact hread
  · intro hread
    exact ⟨.ok w, hread, rfl⟩

/-- What a schema of numbers makes of the double of a value, if it has one. -/
def readDouble (spec : ParamSpec) (value : Value) (read : Except String Float) :
    Outcome (Except String Value) :=
  match read >>= numberOf spec.kind value with
  | .ok number => spec.withinBounds number
  | .error reason => .ok (.error reason)

theorem read_number (hkind : spec.kind = .integer ∨ spec.kind = .real) (v : Value) :
    spec.read v = readNumber v >>= spec.readDouble v := by
  obtain ⟨name, kind, default, options, minimum, maximum, description⟩ := spec
  obtain rfl | rfl : kind = .integer ∨ kind = .real := hkind
  · rfl
  · rfl

/-- A value is read as a number by a schema of numbers: it has a double, the double gives a number
of the kind, and the number passes the check of the bounds. -/
theorem coerce_number_eq_ok (hkind : spec.kind = .integer ∨ spec.kind = .real) :
    spec.coerce v blockType = .ok w ↔ ∃ x number, readNumber v = .ok (.ok x) ∧
      numberOf spec.kind v x = .ok number ∧ spec.withinBounds number = .ok (.ok w) := by
  rw [coerce_eq_ok, read_number hkind, bind_eq_ok]
  constructor
  · rintro ⟨read, hx, h⟩
    rw [readDouble] at h
    split at h
    · rename_i number hnumber
      obtain ⟨x, rfl, hnumber⟩ := bind_eq_ok.mp hnumber
      exact ⟨x, number, hx, hnumber, h⟩
    · cases Except.ok.inj h
  · rintro ⟨x, number, hx, hnumber, h⟩
    refine ⟨.ok x, hx, ?_⟩
    rw [readDouble, ok_bind, hnumber]
    exact h

/-- What a schema of numbers makes of a value is a number, and it is within the bounds just when
neither it nor a bound that is set is a NaN. -/
theorem coerce_within_iff (hkind : spec.kind = .integer ∨ spec.kind = .real)
    (h : spec.coerce v blockType = .ok w) :
    ∃ number, w = number.toValue ∧ (spec.within number = true ↔ spec.comparable number = true) := by
  obtain ⟨x, number, -, -, hbounds⟩ := (coerce_number_eq_ok hkind).mp h
  obtain ⟨rfl, -⟩ := withinBounds_eq_ok_iff.mp hbounds
  refine ⟨number, rfl, ?_⟩
  rw [within_iff]
  exact and_iff_right hbounds

/-- The schema of a share: a number from zero to one. -/
def share : ParamSpec := .real "share" 0.5 (some 0) (some 1)

/-- A quarter, written with blanks around it, is within the bounds of a share. -/
theorem coerce_within_iff_quarter :
    share.coerce " 0.25\n" "?" = .ok (.real 0.25) ∧
      ∃ number, Value.real 0.25 = number.toValue ∧
        (share.within number = true ↔ share.comparable number = true) := by
  have h : share.coerce " 0.25\n" "?" = .ok (.real 0.25) := by rfl
  exact ⟨h, coerce_within_iff (.inr rfl) h⟩

/-- What a schema with bounds gives back need not be within them. -/
theorem coerce_beside_bounds : share.minimum = .real 0 ∧
    share.coerce "nan" "?" = .ok (.real (0.0 / 0.0)) ∧
      Number.le (.real 0) (.real (0.0 / 0.0)) = false :=
  ⟨rfl, rfl, by decide⟩

end BlockNet.ParamSpec
