import BlockNet.Value.Arithmetic
import BlockNet.Proofs.Outcome
import Mathlib.Algebra.Order.Floor.Div
import Mathlib.Data.Nat.Log
import Mathlib.Tactic.Ring

/-! # Quotients of whole numbers, rounded up

A quotient of whole numbers is rounded to a double before it is rounded up. As long as the first
number has no more than 53 bits, what comes out is the quotient rounded up: doubles near the quotient
lie closer than twice its distance from the whole number below it. -/

namespace BlockNet.Binary

/-- The whole number nearest a quotient, ties to even. -/
def nearest (wide deep : Nat) : Nat :=
  if deep < 2 * (wide % deep) ∨ (2 * (wide % deep) = deep ∧ wide / deep % 2 = 1) then wide / deep + 1
  else wide / deep

theorem nearest_close (wide : Nat) {deep : Nat} (hdeep : 0 < deep) :
    2 * wide ≤ 2 * (nearest wide deep * deep) + deep ∧
      2 * (nearest wide deep * deep) ≤ 2 * wide + deep := by
  have hsplit := Nat.div_add_mod' wide deep
  have hrest := Nat.mod_lt wide hdeep
  rw [nearest]
  split
  · rw [Nat.succ_mul (wide / deep) deep]
    omega
  · omega

/-- What is at most a whole number is rounded to it at most. -/
theorem nearest_le {wide deep k : Nat} (hdeep : 0 < deep) (h : wide ≤ k * deep) :
    nearest wide deep ≤ k := by
  have hclose := (nearest_close wide hdeep).2
  by_contra! hlt
  have hnext := Nat.mul_le_mul_right deep (Nat.succ_le_of_lt hlt)
  rw [Nat.succ_mul] at hnext
  omega

/-- What is beyond a whole number by more than a half is rounded beyond it. -/
theorem lt_nearest {wide deep k : Nat} (hdeep : 0 < deep) (h : 2 * (k * deep) + deep < 2 * wide) :
    k < nearest wide deep := by
  have hclose := (nearest_close wide hdeep).1
  refine Nat.lt_of_mul_lt_mul_right (a := deep) ?_
  omega

/-- Does a quotient that is scaled by so many places fit into the 53 bits of a double? -/
def Fits (n d : Nat) (places : Int) : Prop :=
  n <<< places.toNat < d <<< ((-places).toNat + 53)

instance (n d : Nat) (places : Int) : Decidable (Fits n d places) :=
  inferInstanceAs (Decidable (_ < _))

/-- The places that a quotient is scaled by before it is rounded. -/
def places (n d : Nat) : Int :=
  let near : Int := 52 + d.log2 - n.log2
  min (if Fits n d (near + 1) then near + 1 else near) 1074

theorem ofQuotient_eq (n d : Nat) : ofQuotient n d =
    (let p := places n d
     let mantissa := nearest (n <<< p.toNat) (d <<< (-p).toNat)
     if 1024 ≤ mantissa.log2 - p then .infinite false else .finite false mantissa (-p)) := by
  have hn : ¬ (n : Int) < 0 := by omega
  have hd : ¬ (d : Int) < 0 := by omega
  have hnegative : decide (((n : Int) < 0) ≠ ((d : Int) < 0)) = false := by
    simp only [hn, hd, ne_eq, not_true, decide_false]
  rw [ofQuotient, hnegative]
  rfl

theorem log2_le_log2 {m n : Nat} (h : m ≤ n) : m.log2 ≤ n.log2 := by
  rw [Nat.log2_eq_log_two, Nat.log2_eq_log_two]
  exact Nat.log_mono_right h

/-- A quotient of a number of at most 53 bits is not scaled down, and if it is one or more it is
scaled up until it has 53 bits. -/
theorem places_spec {n d : Nat} (hn : 1 ≤ n) (hle : n ≤ 2 ^ 53)
    (hedge : n < 2 ^ 53 ∨ 2 ≤ d) :
    ∃ q : Nat, places n d = q ∧ (d ≤ n → 2 ^ 52 * d ≤ n * 2 ^ q) := by
  have hlog : n.log2 ≤ 52 + d.log2 := by
    rcases hedge with hlt | htwo
    · have := (Nat.log2_lt (by omega)).mpr hlt
      omega
    · have hnlog := log2_le_log2 hle
      have hdlog := log2_le_log2 htwo
      rw [Nat.log2_two_pow] at hnlog
      rw [Nat.log2_two] at hdlog
      omega
  obtain ⟨near, hnear⟩ : ∃ near, 52 + d.log2 = near + n.log2 := ⟨52 + d.log2 - n.log2, by omega⟩
  have hfits : Fits n d ((near : Int) + 1) ↔ n * 2 ^ (near + 1) < d * 2 ^ 53 := by
    rw [Fits, Nat.shiftLeft_eq, Nat.shiftLeft_eq, show ((near : Int) + 1).toNat = near + 1 by omega,
      show (-((near : Int) + 1)).toNat + 53 = 53 by omega]
  have hplaces : places n d =
      (min (if Fits n d ((near : Int) + 1) then near + 1 else near) 1074 : Nat) := by
    rw [places, show (52 : Int) + d.log2 - n.log2 = near by omega]
    split <;> omega
  refine ⟨_, hplaces, fun hdn => ?_⟩
  have hlow := log2_le_log2 hdn
  rw [Nat.min_eq_left (by split <;> omega)]
  split
  next =>
    -- one place more still fits, and the leading bits alone have the size that is asked for
    have hnpow := Nat.log2_self_le (show n ≠ 0 by omega)
    have hdpow := @Nat.lt_log2_self d
    calc 2 ^ 52 * d ≤ 2 ^ 52 * 2 ^ (d.log2 + 1) := Nat.mul_le_mul_left (2 ^ 52) hdpow.le
      _ = 2 ^ n.log2 * 2 ^ (near + 1) := by rw [← pow_add, ← pow_add]; congr 1; omega
      _ ≤ n * 2 ^ (near + 1) := Nat.mul_le_mul_right _ hnpow
  next hnot =>
    rw [hfits, pow_succ, ← Nat.mul_assoc] at hnot
    omega

theorem quotient_neg (m q : Nat) : quotient m (-(q : Int)) = (m, 2 ^ q) := by
  cases q with
  | zero => simp [quotient]
  | succ q => rfl

theorem ceilDiv_mul_lt (n : Nat) {d : Nat} (hd : 0 < d) : n ⌈/⌉ d * d < n + d := by
  have := Nat.div_mul_le_self (n + d - 1) d
  rw [Nat.ceilDiv_eq_add_pred_div]
  omega

/-- The double `m / 2 ^ q` rounded up. -/
theorem ceil_finite (m q : Nat) :
    (finite false m (-(q : Int))).ceil = .ok (m ⌈/⌉ 2 ^ q : Nat) := by
  have hceil : (finite false m (-(q : Int))).ceil =
      .ok (-Int.fdiv (-(quotient m (-(q : Int))).1) (quotient m (-(q : Int))).2) := rfl
  have hunit := Nat.two_pow_pos q
  rw [hceil, quotient_neg]
  generalize 2 ^ q = unit at hunit ⊢
  have hupper := (ceilDiv_le_iff_le_mul hunit).mp (le_refl (m ⌈/⌉ unit))
  have hlower := ceilDiv_mul_lt m hunit
  have hfloor : -(m : Int) / unit = -(m ⌈/⌉ unit : Nat) := by
    rw [Int.ediv_eq_iff_of_pos (by omega), Int.neg_mul]
    rw [Nat.mul_comm] at hupper
    omega
  rw [Int.fdiv_eq_ediv_of_nonneg _ (by omega), hfloor, neg_neg]

theorem ofQuotient_finite {n d : Nat} (hd : 1 ≤ d) (hle : n ≤ 2 ^ 53) {q : Nat}
    (hq : places n d = q) :
    ofQuotient n d = .finite false (nearest (n * 2 ^ q) d) (-(q : Int)) := by
  have hmantissa : nearest (n * 2 ^ q) d ≤ 2 ^ (53 + q) := by
    refine nearest_le hd ?_
    rw [pow_add]
    calc n * 2 ^ q ≤ 2 ^ 53 * 2 ^ q := Nat.mul_le_mul_right _ hle
      _ ≤ 2 ^ 53 * 2 ^ q * d := Nat.le_mul_of_pos_right _ hd
  have hlog := log2_le_log2 hmantissa
  rw [Nat.log2_two_pow] at hlog
  rw [ofQuotient_eq, hq]
  simp only [Int.toNat_natCast, show (-(q : Int)).toNat = 0 by omega, Nat.shiftLeft_eq,
    pow_zero, Nat.mul_one]
  rw [if_neg (by omega)]

/-- Nothing is lost by way of the double: a quotient of one or more is not rounded down to a whole
number below it. -/
theorem lt_nearest_scaled {n d k q : Nat} (hd : 1 ≤ d) (hle : n ≤ 2 ^ 53) (hk : k * d < n)
    (hscale : 2 ^ 52 * d ≤ n * 2 ^ q) :
    k * 2 ^ q < nearest (n * 2 ^ q) d := by
  refine lt_nearest hd ?_
  have hunit := Nat.two_pow_pos q
  generalize 2 ^ q = unit at hscale hunit ⊢
  have hwide : n * unit ≤ 2 ^ 53 * unit := Nat.mul_le_mul_right unit hle
  obtain ⟨r, rfl⟩ := Nat.exists_eq_add_of_lt hk
  have hsplit : (k * d + r + 1) * unit = k * unit * d + r * unit + unit := by ring
  suffices d < 2 * (r * unit) + 2 * unit by omega
  rcases Nat.eq_zero_or_pos r with rfl | hr
  · -- the spacing of doubles is the divisor only for `2 ^ 53`, which is no odd number
    refine lt_of_le_of_ne (by omega) fun hd => ?_
    have hodd : k * d = 2 * (k * unit) := by
      rw [hd]
      ring
    have hfull : 2 ^ 53 ≤ k * d + 0 + 1 := by
      refine Nat.le_of_mul_le_mul_right (c := unit) ?_ hunit
      omega
    omega
  · have := Nat.le_mul_of_pos_left unit hr
    omega

/-- A quotient rounded up by way of a double, one at least, is the quotient rounded up. -/
theorem ceil_ofQuotient {n d : Nat} (hn : 1 ≤ n) (hd : 1 ≤ d) (hle : n ≤ 2 ^ 53) :
    ∃ up : Nat, (ofQuotient n d).ceil = .ok up ∧ max 1 up = n ⌈/⌉ d := by
  by_cases hedge : n < 2 ^ 53 ∨ 2 ≤ d
  · obtain ⟨q, hq, hscale⟩ := places_spec hn hle hedge
    refine ⟨_, by rw [ofQuotient_finite hd hle hq, ceil_finite], ?_⟩
    have hunit := Nat.two_pow_pos q
    have hceil := (ceilDiv_le_iff_le_mul hd).mp (le_refl (n ⌈/⌉ d))
    have hmul := ceilDiv_mul_lt n hd
    obtain ⟨k, hk⟩ : ∃ k, n ⌈/⌉ d = k + 1 := by
      refine Nat.exists_eq_succ_of_ne_zero fun hzero => ?_
      rw [hzero, Nat.mul_zero] at hceil
      omega
    rw [hk] at hceil hmul ⊢
    have hupper : nearest (n * 2 ^ q) d ⌈/⌉ 2 ^ q ≤ k + 1 := by
      refine (ceilDiv_le_iff_le_mul hunit).mpr (nearest_le hd ?_)
      calc n * 2 ^ q ≤ d * (k + 1) * 2 ^ q := Nat.mul_le_mul_right _ hceil
        _ = 2 ^ q * (k + 1) * d := by ring
    have hlower : 1 ≤ k → k < nearest (n * 2 ^ q) d ⌈/⌉ 2 ^ q := by
      intro hone
      have hkn : k * d < n := by
        rw [Nat.succ_mul] at hmul
        omega
      have hdk := Nat.le_mul_of_pos_left d hone
      rw [← not_le, ceilDiv_le_iff_le_mul hunit, not_le, Nat.mul_comm]
      exact lt_nearest_scaled hd hle hkn (hscale (by omega))
    omega
  · obtain rfl : n = 2 ^ 53 := by omega
    obtain rfl : d = 1 := by omega
    refine ⟨2 ^ 53, ?_, ?_⟩
    · rw [← toOption_eq_some]
      decide +kernel
    · rw [ceilDiv_one]
      decide

end BlockNet.Binary
