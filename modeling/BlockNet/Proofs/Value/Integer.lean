import BlockNet.Proofs.Decimal.Exact
import BlockNet.Proofs.Value.Equal
import BlockNet.Proofs.Value.Order
import BlockNet.Value.Arithmetic

/-! # Whole numbers of equal values

Equal values stand for the same whole number, or for none in the same way, though they may be of
different kinds. -/

namespace BlockNet

open Float.Model

/-! ## Equal doubles -/

theorem compare_then_eq_iff {e f : Int} {m n : Nat} :
    (compare e f).then (compare m n) = .eq ↔ e = f ∧ m = n := by
  rw [Ordering.then_eq_eq, Std.LawfulEqCmp.compare_eq_iff_eq, Std.LawfulEqCmp.compare_eq_iff_eq]

/-- Doubles that compare as equal have the same parts, but that zeros may differ by their sign. -/
theorem compare_unpack_eq {a b : UnpackedFloat} (h : a.compare b = some .eq) :
    a = b ∨ ∃ s t, a = .zero s ∧ b = .zero t := by
  cases a with
  | notANumber => cases b <;> cases h
  | infinity s =>
      cases b with
      | infinity t =>
          cases s <;> cases t
          · exact .inl rfl
          · cases h
          · cases h
          · exact .inl rfl
      | _ => cases s <;> cases h
  | zero s =>
      cases b with
      | zero t => exact .inr ⟨s, t, rfl, rfl⟩
      | notANumber => cases h
      | _ t => cases t <;> cases h
  | finite s m e hm =>
      cases b with
      | finite t n f hn =>
          cases s <;> cases t
          · obtain ⟨rfl, rfl⟩ := compare_then_eq_iff.mp (Ordering.swap_eq_eq.mp (Option.some.inj h))
            exact .inl rfl
          · cases h
          · cases h
          · obtain ⟨rfl, rfl⟩ := compare_then_eq_iff.mp (Option.some.inj h)
            exact .inl rfl
      | notANumber => cases h
      | _ t => cases s <;> cases t <;> cases h

namespace Value

/-! ## Equal numbers -/

/-- A double that stands for a whole number is cut to it. -/
theorem toInt_real {x : Float} {n : Int} (h : (Binary.ofFloat x).StandsFor n) :
    (Value.real x).toInt = .ok n := by
  have htruncated := h.truncated?
  rw [toInt]
  obtain ⟨den, -, hfraction⟩ := h
  cases hx : Binary.ofFloat x with
  | finite negative m e =>
      rw [hx] at htruncated
      simp only [htruncated, Option.getD_some]
  | _ =>
      rw [hx] at hfraction
      cases hfraction

theorem toInt_nan {x : Float} (h : x.isNaN = true) : (Value.real x).toInt = mishap .unreadable := by
  rw [toInt, Binary.ofFloat_eq_nan_iff.mpr h]

theorem toInt_real_congr {x y : Float}
    (h : x.toModel.unpack.compare y.toModel.unpack = some .eq) :
    (Value.real x).toInt = (Value.real y).toInt := by
  rcases compare_unpack_eq h with heq | ⟨s, t, hx, hy⟩
  · rw [toInt, toInt, Binary.ofFloat_eq, Binary.ofFloat_eq, heq]
  · -- both signs of zero are cut to zero
    have hzero {z : Float} {s : UnpackedFloat.Sign} (hz : z.toModel.unpack = .zero s) :
        (Value.real z).toInt = .ok 0 := by
      refine toInt_real ?_
      rw [Binary.ofFloat_eq, hz]
      exact Binary.standsFor_zero _ _
    rw [hzero hx, hzero hy]

theorem toInt_eq_of_compareInt {x : Float} {n : Int}
    (h : (Binary.ofFloat x).compareInt n = some .eq) : (Value.real x).toInt = .ok n := by
  refine toInt_real ?_
  cases hx : Binary.ofFloat x with
  | nan =>
      rw [hx] at h
      cases h
  | infinite negative =>
      rw [hx] at h
      cases negative <;> cases h
  | finite negative m e =>
      simp only [hx, Binary.compareInt] at h
      obtain ⟨⟨num, den⟩, hfraction, hcompare⟩ := Option.map_eq_some_iff.mp h
      obtain rfl : num = n * den := Int.compare_eq_eq.mp hcompare
      exact ⟨den, Binary.fraction?_den_pos hfraction, hfraction⟩

end Value

namespace Number

theorem toInt_of_integer? {a : Number} {n : Int} (h : a.integer? = some n) : a.toInt = .ok n := by
  cases a with
  | real x => cases h
  | _ =>
      obtain rfl := Option.some.inj h
      rfl

theorem compare_of_integer? {a b : Number} {m n : Int} (ha : a.integer? = some m)
    (hb : b.integer? = some n) : a.compare b = some (Ord.compare m n) := by
  cases a with
  | real x => cases ha
  | _ =>
      cases b with
      | real y => cases hb
      | _ =>
          obtain rfl := Option.some.inj ha
          obtain rfl := Option.some.inj hb
          rfl

theorem lt_of_integer? {a b : Number} {m n : Int} (ha : a.integer? = some m)
    (hb : b.integer? = some n) : a.lt b = decide (m < n) := by
  rw [lt, compare_of_integer? ha hb, Bool.eq_iff_iff]
  simp [Int.compare_eq_lt]

/-- A double that equals a number without a fraction is cut to it. -/
theorem toInt_real_of_eq {x : Float} {b : Number} {n : Int} (hb : b.integer? = some n)
    (h : (Number.real x).compare b = some .eq) : (Number.real x).toInt = .ok n := by
  refine Value.toInt_eq_of_compareInt ?_
  cases b with
  | real y => cases hb
  | _ =>
      obtain rfl := Option.some.inj hb
      exact h

/-- Equal numbers are cut to the same whole number. -/
theorem toInt_congr {a b : Number} (h : a.eq b = true) : a.toInt = b.toInt := by
  replace h : a.compare b = some .eq := eq_of_beq h
  have hswap : b.compare a = some .eq := by
    rw [compare_swap, h]
    rfl
  cases ha : a.integer? with
  | some m =>
      rw [toInt_of_integer? ha]
      cases hb : b.integer? with
      | some n =>
          rw [compare_of_integer? ha hb, Option.some.injEq] at h
          rw [toInt_of_integer? hb, Std.LawfulEqCmp.eq_of_compare h]
      | none =>
          cases b with
          | real y => exact (toInt_real_of_eq ha hswap).symm
          | _ => cases hb
  | none =>
      cases a with
      | real x =>
          cases b with
          | real y =>
              rw [compare_real] at h
              exact Value.toInt_real_congr h
          | _ => rw [toInt_real_of_eq rfl h, toInt_of_integer? rfl]
      | _ => cases ha

end Number

namespace Value

/-! ## Equal values -/

theorem toInt_of_number? {v : Value} {a : Number} (h : v.number? = some a) : v.toInt = a.toInt := by
  cases v with
  | bool c | int c | real c =>
      obtain rfl := Option.some.inj h
      rfl
  | _ => cases h

/-- What is neither a number nor a text stands for no whole number. -/
theorem toInt_of_number?_eq_none {v : Value} (h : v.number? = none) (htext : ∀ s, v ≠ .text s) :
    v.toInt = mishap .wrongType := by
  cases v with
  | text s => exact absurd rfl (htext s)
  | bool c | int c | real c => cases h
  | _ => rfl

variable {nanEqual : Bool} {v w : Value}

theorem number?_eq_none_of_equal (hv : v.number? = none) (h : v.equal nanEqual w = true) :
    w.number? = none := by
  cases v with
  | bool c | int c | real c => cases hv
  | _ => cases w <;> simp [equal, number?] at h ⊢

/-- What equals a number is a number that it equals, or both are no numbers. -/
theorem number?_of_equal {a : Number} (hv : v.number? = some a) (h : v.equal nanEqual w = true) :
    ∃ b, w.number? = some b ∧ (a.eq b = true ∨ a.isNaN = true ∧ b.isNaN = true) := by
  cases v with
  | real x =>
      obtain rfl := Option.some.inj hv
      cases w with
      | real y =>
          refine ⟨_, rfl, ?_⟩
          rw [equal, Bool.or_eq_true, Bool.and_eq_true, Bool.and_eq_true] at h
          rcases h with hsame | ⟨⟨-, hx⟩, hy⟩
          · refine .inl ?_
            rw [Number.eq, Number.compare_real]
            exact hsame
          · exact .inr ⟨hx, hy⟩
      | bool c | int c => exact ⟨_, rfl, .inl h⟩
      | _ => cases h
  | bool c | int c =>
      obtain rfl := Option.some.inj hv
      cases w with
      | bool d | int d | real d => exact ⟨_, rfl, .inl h⟩
      | _ => cases h
  | _ => cases hv

theorem toInt_of_isNaN {a : Number} (h : a.isNaN = true) : a.toInt = mishap .unreadable := by
  cases a with
  | real x => exact toInt_nan h
  | _ => cases h

/-- Equal values stand for the same whole number, or for none in the same way. -/
theorem toInt_congr (h : v.equal nanEqual w = true) : v.toInt = w.toInt := by
  cases hv : v.number? with
  | some a =>
      obtain ⟨b, hw, hsame⟩ := number?_of_equal hv h
      rw [toInt_of_number? hv, toInt_of_number? hw]
      rcases hsame with heq | ⟨ha, hb⟩
      · exact Number.toInt_congr heq
      · rw [toInt_of_isNaN ha, toInt_of_isNaN hb]
  | none =>
      by_cases htext : ∃ s, v = .text s
      · obtain ⟨s, rfl⟩ := htext
        rw [text_equal_iff.mp h]
      · have hother : ∀ s, w ≠ .text s := by
          rintro s rfl
          cases v <;> simp [equal, number?] at h htext
        rw [toInt_of_number?_eq_none hv fun s hs => htext ⟨s, hs⟩,
          toInt_of_number?_eq_none (number?_eq_none_of_equal hv h) hother]

end Value

end BlockNet
