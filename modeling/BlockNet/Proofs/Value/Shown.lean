import BlockNet.Value.Basic

/-! # Texts of values

The text of a value is empty for no value but the empty text. -/

namespace BlockNet

namespace Decimal

theorem pointed_ne_empty {places n : Nat} (h : places ≠ 0) : pointed places n ≠ "" := by
  simp [pointed, h, String.append_eq_empty_iff]

theorem exponentMark_ne_empty (e : Int) : exponentMark e ≠ "" := by
  simp [exponentMark, String.append_eq_empty_iff]

theorem shortest_ne_empty (x : Float) : shortest x ≠ "" := by
  unfold shortest special
  cases Binary.ofFloat x with
  | nan => simp
  | infinite negative => simp [String.append_eq_empty_iff]
  | finite negative mantissa exponent =>
      dsimp only
      split
      · simp [String.append_eq_empty_iff]
      · generalize stripZeros 20 _ _ = digits
        obtain ⟨k, e⟩ := digits
        refine fun h => absurd (String.append_eq_empty_iff.mp h).2 ?_
        split
        · split
          · simp [String.append_eq_empty_iff]
          · exact pointed_ne_empty (by omega)
        · simp [String.append_eq_empty_iff, exponentMark_ne_empty]

end Decimal

namespace Value

theorem toString_int_ne_empty (n : Int) : toString n ≠ "" := by
  cases n with
  | ofNat n => exact fun h => Nat.toDigits_ne_nil (String.ofList_eq_empty_iff.mp h)
  | negSucc n =>
      change "-" ++ _ ≠ ""
      simp [String.append_eq_empty_iff]

theorem shown_ne_empty (v : Value) : v.shown ≠ "" := by
  cases v with
  | null => simp [shown]
  | bool b => cases b <;> simp [shown]
  | int n => exact toString_int_ne_empty n
  | real x => exact Decimal.shortest_ne_empty x
  | text s => simp [shown, Text.quoted]
  | dim d => cases d <;> simp [shown, Dynamic.name]
  | list items => simp [shown, String.append_eq_empty_iff]
  | tuple items =>
      rcases items with _ | ⟨item, _ | ⟨next, rest⟩⟩ <;> simp [shown, String.append_eq_empty_iff]
  | dict entries => simp [shown, String.append_eq_empty_iff]

theorem plain_ne_empty {v : Value} (h : v.truthy = true) : v.plain ≠ "" := by
  cases v with
  | text s => simpa [truthy, plain] using h
  | _ => exact shown_ne_empty _

end Value

end BlockNet
