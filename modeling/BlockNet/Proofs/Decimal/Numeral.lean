import BlockNet.Decimal.Numeral
import Mathlib.Data.List.TakeWhile
import Mathlib.Algebra.Ring.Nat

/-! # Reading whole numbers back

A whole number that is written in digits is read as the double nearest to it, whatever blanks stand
around the digits. -/

namespace BlockNet

/-! ## Trimming -/

namespace Text

variable {drops : Char → Bool} {front cs back : List Char}

/-- Trimming takes away what stands around characters that are not dropped, and no more. -/
theorem trim_append (hfront : ∀ c ∈ front, drops c = true) (hback : ∀ c ∈ back, drops c = true)
    (hcs : ∀ c ∈ cs, drops c = false) : trim drops (front ++ cs ++ back) = cs := by
  have hkeep : ∀ ds more : List Char, ds ≠ [] → (∀ c ∈ ds, drops c = false) →
      (ds ++ more).dropWhile drops = ds ++ more := by
    intro ds more hne hds
    cases ds with
    | nil => exact absurd rfl hne
    | cons d ds => simp [hds d List.mem_cons_self]
  have hback' : ∀ c ∈ back.reverse, drops c = true := fun c hc => hback c (List.mem_reverse.mp hc)
  rw [trim, List.append_assoc, List.dropWhile_append_of_pos hfront]
  cases cs with
  | nil => simp [List.dropWhile_eq_nil_iff.mpr hback]
  | cons c cs =>
      rw [hkeep _ _ (by simp) hcs, List.reverse_append, List.dropWhile_append_of_pos hback',
        ← List.append_nil (c :: cs).reverse, hkeep _ _ (by simp)]
      · simp
      · intro d hd
        exact hcs d (List.mem_reverse.mp hd)

theorem trim_eq_self (hcs : ∀ c ∈ cs, drops c = false) : trim drops cs = cs := by
  have htrim : trim drops ([] ++ cs ++ []) = cs := trim_append nofun nofun hcs
  rwa [List.nil_append, List.append_nil] at htrim

end Text

/-! ## Digits -/

namespace Numeral

variable {c : Char} {cs : List Char} {n : Int}

theorem exists_digitChar (h : c.isDigit = true) : ∃ d < 10, c = Nat.digitChar d := by
  obtain ⟨hleast, hmost⟩ := Char.isDigit_iff_toNat.mp h
  have hzero : '0'.toNat = 48 := rfl
  have hnine : '9'.toNat = 57 := rfl
  refine ⟨c.toNat - 48, by omega, ?_⟩
  rw [← Char.toNat_inj, Nat.toNat_digitChar_of_lt_ten (by omega)]
  omega

/-- A character of a whole number: a digit, or the sign. -/
def isWritten (c : Char) : Bool := c.isDigit || c == '-'

/-- What holds of the sign and of ten digits holds of all characters of a whole number. -/
theorem isWritten_cases {P : Char → Prop} (hsign : P '-') (hdigit : ∀ d < 10, P (Nat.digitChar d))
    (h : isWritten c = true) : P c := by
  rcases Bool.or_eq_true_iff.mp h with h | h
  · obtain ⟨d, hd, rfl⟩ := exists_digitChar h
    exact hdigit d hd
  · obtain rfl := beq_iff_eq.mp h
    exact hsign

theorem plainDigits_eq_self (h : ∀ c ∈ cs, isWritten c = true) : plainDigits cs = cs := by
  induction cs with
  | nil => rfl
  | cons c cs ih =>
      obtain ⟨hc, hcs⟩ := List.forall_mem_cons.mp h
      have hfirst : plainDigits [c] = [c] :=
        isWritten_cases (P := fun c => plainDigits [c] = [c]) (by decide) (by decide) hc
      exact congrArg₂ (· ++ ·) hfirst (ih hcs)

theorem dropUnderscores_eq_self (h : ∀ c ∈ cs, c ≠ '_') (afterDigit : Bool) :
    dropUnderscores afterDigit cs = some cs := by
  induction cs generalizing afterDigit with
  | nil => cases afterDigit <;> rfl
  | cons c cs ih =>
      obtain ⟨hc, hcs⟩ := List.forall_mem_cons.mp h
      have hrest := ih hcs c.isDigit
      rw [dropUnderscores.eq_def]
      split <;> simp_all

theorem digitsValue_toDigits (m : ℕ) : digitsValue (Nat.toDigits 10 m) = m :=
  Nat.ofDigitChars_ten_toDigits

theorem isDigit_of_mem {m : ℕ} (h : c ∈ Nat.toDigits 10 m) : c.isDigit = true :=
  Nat.isDigit_of_mem_toDigits (by decide) (by decide) h

theorem named?_eq_none (hne : cs ≠ []) (h : ∀ c ∈ cs, c.isDigit = true) : named? cs = none := by
  obtain ⟨c, rest, rfl⟩ := List.exists_cons_of_ne_nil hne
  obtain ⟨d, hd, rfl⟩ := exists_digitChar (h c List.mem_cons_self)
  have hfirst : ∀ d < 10, (Nat.digitChar d).toLower ≠ 'i' ∧ (Nat.digitChar d).toLower ≠ 'n' := by
    decide
  have hother : ∀ word : String, word.toList.head? = some 'i' ∨ word.toList.head? = some 'n' →
      String.ofList ((Nat.digitChar d :: rest).map Char.toLower) ≠ word := by
    rintro _ hhead rfl
    simp only [String.toList_ofList, List.map_cons, List.head?_cons, Option.some.injEq] at hhead
    exact hhead.elim (hfirst d hd).1 (hfirst d hd).2
  rw [named?]
  split
  · exact absurd ‹_› (hother "inf" (by decide))
  · exact absurd ‹_› (hother "infinity" (by decide))
  · exact absurd ‹_› (hother "nan" (by decide))
  · rfl

theorem magnitude?_digits (hne : cs ≠ []) (h : ∀ c ∈ cs, c.isDigit = true) :
    magnitude? cs = some (nearest (digitsValue cs) 0) := by
  have hfront : cs.takeWhile Char.isDigit = cs := List.takeWhile_eq_self_iff.mpr h
  have hrest : cs.dropWhile Char.isDigit = [] := List.dropWhile_eq_nil_iff.mpr h
  simp [magnitude?, hfront, hrest, hne, exponentPart?]

/-! ## Whole numbers -/

theorem toList_toString (n : ℤ) :
    (toString n).toList = (if n < 0 then ['-'] else []) ++ Nat.toDigits 10 n.natAbs := by
  rw [Int.toString_eq_repr]
  cases n with
  | ofNat m => simp [Int.repr]
  | negSucc m => simp [Int.repr, Int.negSucc_lt_zero]

theorem isWritten_of_mem (h : c ∈ (toString n).toList) : isWritten c = true := by
  rw [toList_toString, List.mem_append] at h
  rcases h with h | h
  · split at h
    · rw [List.mem_singleton.mp h]
      rfl
    · cases h
  · rw [isWritten, isDigit_of_mem h, Bool.true_or]

theorem bare?_toString (n : ℤ) : bare? (toString n) = some (toString n).toList := by
  rw [bare?, Text.trim_eq_self, plainDigits_eq_self fun c => isWritten_of_mem,
    dropUnderscores_eq_self]
  · intro c hc
    exact isWritten_cases (P := (· ≠ '_')) (by decide) (by decide) (isWritten_of_mem hc)
  · intro c hc
    exact isWritten_cases (P := (isPadding · = false)) (by decide) (by decide) (isWritten_of_mem hc)

theorem signed_toString (n : ℤ) :
    signed (toString n).toList = (decide (n < 0), Nat.toDigits 10 n.natAbs) := by
  rw [toList_toString]
  by_cases hn : n < 0
  · simp [hn, signed]
  · rw [if_neg hn, List.nil_append, decide_eq_false hn, signed.eq_def]
    have hdigits : ∀ c ∈ Nat.toDigits 10 n.natAbs, c.isDigit = true := fun c => isDigit_of_mem
    split
    · rename_i heq
      have hminus := hdigits '-' (by simp [heq])
      cases hminus
    · rename_i heq
      have hplus := hdigits '+' (by simp [heq])
      cases hplus
    · rfl

/-- A whole number is read from its digits, with its sign. -/
theorem real?_toString (n : ℤ) :
    real? (toString n) = some (if n < 0 then -nearest n.natAbs 0 else nearest n.natAbs 0) := by
  have hdigits : ∀ c ∈ Nat.toDigits 10 n.natAbs, c.isDigit = true := fun c => isDigit_of_mem
  have hmagnitude := magnitude?_digits Nat.toDigits_ne_nil hdigits
  rw [digitsValue_toDigits] at hmagnitude
  rw [real?, bare?_toString, Option.bind_eq_bind, Option.bind_some, signed_toString]
  simp [named?_eq_none Nat.toDigits_ne_nil hdigits, hmagnitude]

/-- A digit holds at least three bits. -/
theorem length_toDigits_le {m bits k : ℕ} (h : m < 2 ^ bits) (hbits : bits ≤ 3 * k) (hk : 0 < k) :
    (Nat.toDigits 10 m).length ≤ k := by
  rw [Nat.length_toDigits_le_iff (by decide) hk]
  calc m < 2 ^ bits := h
    _ ≤ 2 ^ (3 * k) := Nat.pow_le_pow_right (by decide) hbits
    _ = (2 ^ 3) ^ k := pow_mul 2 3 k
    _ ≤ 10 ^ k := Nat.pow_le_pow_left (by decide) k

theorem nearest_whole {m : ℕ} (hm : (Nat.toDigits 10 m).length ≤ 400) :
    nearest m 0 = Float.ofScientific m false 0 := by
  by_cases hzero : m = 0
  · subst hzero
    rfl
  · simp only [nearest, hzero, if_false, Int.add_zero]
    rw [if_neg (by omega), if_neg (by omega)]
    rfl

/-- What is read from the digits of a whole number is the double nearest to it, unless the digits
are so many that the number is beyond all doubles anyway. -/
theorem real?_of_nearest {x : Float} (hn : (Nat.toDigits 10 n.natAbs).length ≤ 400)
    (hx : nearestFloat? n = some x) : real? (toString n) = some x := by
  rw [real?_toString, nearest_whole hn]
  simp only [nearestFloat?] at hx
  split at hx
  · cases hx
  · exact hx

end Numeral

end BlockNet
