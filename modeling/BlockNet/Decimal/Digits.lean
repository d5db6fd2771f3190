/-! # Decimal digits of exact quotients -/

namespace BlockNet.Decimal

/-- The number of decimal digits of a natural number; zero has one. -/
def width (n : Nat) : Nat := (Nat.toDigits 10 n).length

/-- The decimal digits of a natural number, with zeros in front up to a least width. -/
def digits (least n : Nat) : List Char :=
  let ds := Nat.toDigits 10 n
  List.replicate (least - ds.length) '0' ++ ds

/-- The natural number nearest `num / den`; a half goes to the even neighbour. -/
def roundDiv (num den : Nat) : Nat :=
  let low := num / den
  let twice := 2 * (num % den)
  if twice < den then low
  else if den < twice then low + 1
  else low + low % 2

/-- The quotient `num / den` scaled by `10 ^ e`, as a quotient again. -/
def scale (num den : Nat) : Int → Nat × Nat
  | .ofNat e => (num * Nat.pow 10 e, den)
  | .negSucc e => (num, den * Nat.pow 10 (e + 1))

/-- The exponent `e` with `10 ^ e ≤ num / den < 10 ^ (e + 1)`, for a positive quotient. -/
def magnitude (num den : Nat) : Int :=
  let guess : Int := (width num : Int) - width den
  let (n, d) := scale num den (-guess)
  if d ≤ n then guess else guess - 1

/-- A rounded quotient is never more than half a unit away from the quotient. -/
theorem roundDiv_close (num : Nat) {den : Nat} (hpos : 0 < den) :
    2 * num ≤ (2 * roundDiv num den + 1) * den ∧ 2 * roundDiv num den * den ≤ 2 * num + den := by
  have h := Nat.div_add_mod num den
  have hlt := Nat.mod_lt num hpos
  generalize hq : num / den = q at *
  generalize hr : num % den = r at *
  have h' : num = q * den + r := by rw [← h, Nat.mul_comm]
  have expand : ∀ k, (2 * (q + k) + 1) * den = 2 * (q * den) + 2 * (k * den) + den := by
    intro k; simp [Nat.add_mul, Nat.mul_add, Nat.mul_assoc]
  have expand' : ∀ k, 2 * (q + k) * den = 2 * (q * den) + 2 * (k * den) := by
    intro k; simp [Nat.mul_add, Nat.add_mul, Nat.mul_assoc]
  have e0 := expand 0
  have e0' := expand' 0
  have e1 := expand 1
  have e1' := expand' 1
  simp only [Nat.add_zero, Nat.zero_mul, Nat.mul_zero, Nat.one_mul] at e0 e0' e1 e1'
  unfold roundDiv
  simp only [hq, hr]
  split
  · omega
  · split
    · omega
    · rcases Nat.mod_two_eq_zero_or_one q with hm | hm <;> rw [hm]
      · simp only [Nat.add_zero]; omega
      · omega

end BlockNet.Decimal
