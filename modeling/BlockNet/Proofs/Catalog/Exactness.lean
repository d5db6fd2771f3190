import BlockNet.Proofs.Catalog.Bounds
import BlockNet.Proofs.Decimal.Exact
import BlockNet.Proofs.Decimal.Numeral

/-! # Whole numbers through doubles

A schema of whole numbers reads a number as a double first. What it gives back is the whole number
that the double stands for, so it keeps the numbers that are doubles, and no others. -/

namespace BlockNet

open Binary (StandsFor Exact)

variable {spec : ParamSpec} {v w : Value} {blockType : String} {n : Int} {x : Float}

theorem Text.trimmed_toString {front back : String}
    (hfront : ∀ c ∈ front.toList, isBlank c = true) (hback : ∀ c ∈ back.toList, isBlank c = true) :
    trimmed (front ++ toString n ++ back) = toString n := by
  rw [trimmed, String.toList_append, String.toList_append, trim_append hfront hback,
    String.ofList_toList]
  intro c hc
  exact Numeral.isWritten_cases (P := (isBlank · = false)) (by decide) (by decide)
    (Numeral.isWritten_of_mem hc)

namespace ParamSpec

/-! ## What the double stands for -/

theorem numberOf_integer {number : Number} :
    numberOf .integer v x = .ok number ↔ ∃ n, (Binary.ofFloat x).StandsFor n ∧ number = .whole n := by
  constructor
  · intro h
    simp only [numberOf] at h
    split at h
    · rename_i hwhole
      obtain ⟨n, hn⟩ := Binary.exists_standsFor hwhole
      rw [hn.truncated?, Option.getD_some] at h
      exact ⟨n, hn, (Except.ok.inj h).symm⟩
    · cases h
  · rintro ⟨n, hn, rfl⟩
    simp [numberOf, hn.isWhole, hn.truncated?]

/-- A schema of whole numbers gives back what the double of a value stands for. -/
theorem coerce_integer_eq_ok (hkind : spec.kind = .integer) :
    spec.coerce v blockType = .ok w ↔ ∃ x n, readNumber v = .ok (.ok x) ∧
      (Binary.ofFloat x).StandsFor n ∧ spec.withinBounds (.whole n) = .ok (.ok w) := by
  rw [coerce_number_eq_ok (.inl hkind), hkind]
  constructor
  · rintro ⟨x, number, hx, hnumber, h⟩
    obtain ⟨n, hn, rfl⟩ := numberOf_integer.mp hnumber
    exact ⟨x, n, hx, hn, h⟩
  · rintro ⟨x, n, hx, hn, h⟩
    exact ⟨x, .whole n, hx, numberOf_integer.mpr ⟨n, hn, rfl⟩, h⟩

theorem readNumber_int (h : nearestFloat? n = some x) : readNumber (.int n) = .ok (.ok x) := by
  simp [readNumber, unpadded, Value.toFloat, h, orMishap]

theorem readNumber_text {s : String} (h : Numeral.real? (Text.trimmed s) = some x) :
    readNumber (.text s) = .ok (.ok x) := by
  simp [readNumber, unpadded, Value.toFloat, h, orMishap]

/-! ## Numbers that are kept -/

/-- The whole number that a schema gives back is a double. -/
theorem exact_of_coerce (hkind : spec.kind = .integer)
    (h : spec.coerce v blockType = .ok (.int n)) : Exact n := by
  obtain ⟨x, m, -, hm, hbounds⟩ := (coerce_integer_eq_ok hkind).mp h
  obtain rfl := Value.int.inj (withinBounds_eq_ok_iff.mp hbounds).1
  exact hm.exact

/-- A double within the bounds is kept, if the value is read as the double nearest to it. -/
theorem coerce_eq_int (hkind : spec.kind = .integer) (hbounds : spec.within (.whole n) = true)
    (hn : Exact n) (hread : ∀ x, nearestFloat? n = some x → readNumber v = .ok (.ok x)) :
    spec.coerce v blockType = .ok (.int n) := by
  obtain ⟨x, hx, hstands⟩ := hn.exists_float
  exact (coerce_integer_eq_ok hkind).mpr ⟨x, n, hread x hx, hstands, (within_iff.mp hbounds).1⟩

theorem length_toDigits_of_exact (h : Exact n) : (Nat.toDigits 10 n.natAbs).length ≤ 400 := by
  obtain ⟨m, e, hn, hm, he⟩ := h
  have hbits : n.natAbs < 2 ^ (53 + e) := by
    rw [hn, pow_add]
    exact Nat.mul_lt_mul_of_pos_right hm (Nat.two_pow_pos e)
  exact Numeral.length_toDigits_le hbits (by omega) (by decide)

/-- A whole number within the bounds is kept as it is, given as a number or in digits with blanks
around them, just when it is a double. -/
theorem coerce_int_iff_exact (hkind : spec.kind = .integer)
    (hbounds : spec.within (.whole n) = true) :
    (spec.coerce (.int n) blockType = .ok (.int n) ↔ Exact n) ∧
      ∀ front back : String, (∀ c ∈ front.toList, Text.isBlank c = true) →
        (∀ c ∈ back.toList, Text.isBlank c = true) →
          (spec.coerce (.text (front ++ toString n ++ back)) blockType = .ok (.int n) ↔
            Exact n) := by
  refine ⟨⟨exact_of_coerce hkind, fun hn => ?_⟩, fun front back hfront hback =>
    ⟨exact_of_coerce hkind, fun hn => ?_⟩⟩
  · exact coerce_eq_int hkind hbounds hn fun _ => readNumber_int
  · refine coerce_eq_int hkind hbounds hn fun x hx => readNumber_text ?_
    rw [Text.trimmed_toString hfront hback]
    exact Numeral.real?_of_nearest (length_toDigits_of_exact hn) hx

/-- A count of at least one, without an upper bound. -/
def count : ParamSpec := .integer "count" 1 (some 1) none

/-- A double is kept, though it has more bits than a mantissa. -/
theorem coerce_int_iff_exact_wide : count.within (.whole (10 ^ 22)) = true ∧
    count.coerce (.int (10 ^ 22)) "?" = .ok (.int (10 ^ 22)) ∧
      count.coerce (.text ("\t" ++ toString (10 ^ 22 : Int) ++ "\n ")) "?" =
        .ok (.int (10 ^ 22)) := by
  have hbounds : count.within (.whole (10 ^ 22)) = true := by decide
  have hexact : Exact (10 ^ 22) := ⟨5 ^ 22, 22, by decide, by decide, by decide⟩
  have hblank : (∀ c ∈ "\t".toList, Text.isBlank c = true) ∧
      ∀ c ∈ "\n ".toList, Text.isBlank c = true := by
    simp [Text.isBlank, Text.blankCodes]
  exact ⟨hbounds, (coerce_int_iff_exact rfl hbounds).1.mpr hexact,
    ((coerce_int_iff_exact rfl hbounds).2 "\t" "\n " hblank.1 hblank.2).mpr hexact⟩

/-- The least whole number that is no double comes back as another one. -/
theorem coerce_int_rounds :
    count.coerce (.int 9007199254740993) "?" = .ok (.int 9007199254740992) ∧
      count.coerce "9007199254740993" "?" = .ok (.int 9007199254740992) ∧
        count.within (.whole 9007199254740993) = true :=
  ⟨rfl, rfl, by decide⟩

end ParamSpec

end BlockNet
