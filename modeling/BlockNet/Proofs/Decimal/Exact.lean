import BlockNet.Proofs.Decimal.Parts

/-! # Whole numbers as doubles

A whole number with no more than 53 bits, but for the zeros behind them, is a double, and it is the
double that the nearest one is found to be. No other whole number is behind a double. -/

namespace BlockNet

open Float.Model UnpackedFloat

/-! ## Rounding what needs no rounding -/

theorem shiftRight_exact (m k : Nat) :
    ExtendedMantissa.mk (m * 2 ^ k) false false >>> k = ⟨m, false, false⟩ := by
  induction k generalizing m with
  | zero => simp [HShiftRight.hShiftRight, Nat.repeat]
  | succ k ih =>
      have hstep := ih (m * 2)
      change (ExtendedMantissa.mk (m * 2 ^ (k + 1)) false false >>> k).shiftRightOne = _
      rw [pow_succ', ← mul_assoc, hstep]
      simp [ExtendedMantissa.shiftRightOne]

theorem shiftToTargetExponent_exact {m : Nat} {e : Int} (k : Nat) (hleast : 2 ^ 52 ≤ m)
    (hmost : m < 2 ^ 53) (hlow : -1074 ≤ e) :
    shiftToTargetExponent Format.binary64 (m * 2 ^ k) (e - k) .exact = (⟨m, false, false⟩, e) := by
  have hlog : (m * 2 ^ k).log2 = 52 + k := by
    rw [Nat.log2_eq_iff (by positivity), pow_add, pow_add, pow_add]
    have := Nat.two_pow_pos k
    constructor
    · exact Nat.mul_le_mul_right _ hleast
    · nlinarith
  have htarget : Format.binary64.targetExponent (totalExponent (m * 2 ^ k) (e - k)) = e := by
    simp only [Format.targetExponent, totalExponent, hlog, Format.mantissaBits, Format.minExponent]
    omega
  have hshift : (e - (e - k)).toNat = k := by omega
  simp only [shiftToTargetExponent, shiftToExponent, htarget, hshift,
    ExtendedMantissa.ofMantissaAndAccuracy, shiftRight_exact, sub_add_cancel]

theorem roundWithAccuracy_exact {s : Sign} {m : Nat} {e : Int} (k : Nat) (hpos : 0 < m)
    (hleast : 2 ^ 52 ≤ m) (hmost : m < 2 ^ 53) (hlow : -1074 ≤ e) :
    roundWithAccuracy Format.binary64 s (m * 2 ^ k) (e - k) .exact = .finite s m e hpos := by
  have hsecond := shiftToTargetExponent_exact 0 hleast hmost hlow
  rw [pow_zero, mul_one, Nat.cast_zero, sub_zero] at hsecond
  have hrounded : (ExtendedMantissa.mk m false false).roundedMantissa = m := rfl
  simp only [roundWithAccuracy, shiftToTargetExponent_exact k hleast hmost hlow, hrounded, hsecond,
    dif_neg hpos.ne']

/-! ## Whole numbers -/

theorem log2_mul_two_pow {m : Nat} (hm : m ≠ 0) (k : Nat) : (m * 2 ^ k).log2 = m.log2 + k := by
  induction k with
  | zero => rw [pow_zero, mul_one, add_zero]
  | succ k ih =>
      have hne : m * 2 ^ k ≠ 0 := mul_ne_zero hm (Nat.two_pow_pos k).ne'
      rw [pow_succ, ← mul_assoc, mul_comm, Nat.log2_two_mul hne, ih, add_assoc]

variable {n m : Nat}

/-- The 53 bits of a whole number that has no more of them. -/
theorem mantissa_bounds (hn : 0 < n) (hm : m * 2 ^ n.log2 = n * 2 ^ 52) :
    2 ^ 52 ≤ m ∧ m < 2 ^ 53 := by
  obtain ⟨hleast, hmost⟩ := (Nat.log2_eq_iff hn.ne').mp rfl
  have hpos := Nat.two_pow_pos n.log2
  rw [pow_succ] at hmost
  constructor
  · refine Nat.le_of_mul_le_mul_right ?_ hpos
    rw [hm, mul_comm]
    exact Nat.mul_le_mul_right _ hleast
  · refine Nat.lt_of_mul_lt_mul_right (a := 2 ^ n.log2) ?_
    rw [hm]
    omega

theorem ofNat_eq_finite (hn : 0 < n) (hm : m * 2 ^ n.log2 = n * 2 ^ 52) (hsmall : n < 2 ^ 53)
    (hpos : 0 < m) : UnpackedFloat.ofNat Format.binary64 n =
      .finite .positive m ((n.log2 : Int) - 52) hpos := by
  obtain ⟨hleast, hmost⟩ := mantissa_bounds hn hm
  have hbits : n.log2 ≤ 52 := Nat.lt_succ_iff.mp ((Nat.log2_lt hn.ne').mpr hsmall)
  have hcompare : compare (n : Int) 0 = .gt := by
    rw [Int.compare_eq_gt]
    exact_mod_cast hn
  have htarget : Format.binary64.targetExponent (totalExponent n 0) = (n.log2 : Int) - 52 := by
    simp only [Format.targetExponent, totalExponent, Format.mantissaBits, Format.minExponent]
    omega
  have hamount : (0 - ((n.log2 : Int) - 52)).toNat = 52 - n.log2 := by omega
  have hshift : n <<< (52 - n.log2) = m * 2 ^ 0 := by
    refine Nat.eq_of_mul_eq_mul_right (Nat.two_pow_pos n.log2) ?_
    rw [Nat.shiftLeft_eq, mul_assoc, ← pow_add, Nat.sub_add_cancel hbits, pow_zero, mul_one, hm]
  have hexponent : 0 - ((52 - n.log2 : Nat) : Int) = (n.log2 : Int) - 52 - (0 : Nat) := by omega
  simp only [UnpackedFloat.ofNat, UnpackedFloat.ofInt, UnpackedFloat.normalize, hcompare,
    UnpackedFloat.round, Int.toNat_natCast, htarget, decreaseExponent, hamount]
  rw [hshift, hexponent]
  exact roundWithAccuracy_exact 0 hpos hleast hmost (by omega)

theorem unpack_toFloat (hn : 0 < n) (hm : m * 2 ^ n.log2 = n * 2 ^ 52) (hsmall : n < 2 ^ 53)
    (hpos : 0 < m) : n.toUInt64.toFloat.toModel.unpack =
      .finite .positive m ((n.log2 : Int) - 52) hpos := by
  obtain ⟨hleast, hmost⟩ := mantissa_bounds hn hm
  have hbits : n.log2 ≤ 52 := Nat.lt_succ_iff.mp ((Nat.log2_lt hn.ne').mpr hsmall)
  have hword : n.toUInt64.toNat = n := by
    rw [Nat.toUInt64_eq, UInt64.toNat_ofNat_of_lt']
    exact hsmall.trans (by decide)
  change (Float.Model.pack (UnpackedFloat.ofNat _ n.toUInt64.toNat)).unpack = _
  rw [hword, ofNat_eq_finite hn hm hsmall hpos]
  exact unpack_pack hpos hleast hmost (by omega) (by omega)

/-- A whole number with no more than 53 bits, not beyond the largest double, is a double. -/
theorem unpack_ofScientific (hn : 0 < n) (hm : m * 2 ^ n.log2 = n * 2 ^ 52)
    (hlog : n.log2 < 1024) (hpos : 0 < m) : (Float.ofScientific n false 0).toModel.unpack =
      .finite .positive m ((n.log2 : Int) - 52) hpos := by
  obtain ⟨hleast, hmost⟩ := mantissa_bounds hn hm
  rw [Float.ofScientific]
  split
  · -- Few bits: the number is converted as a word, and multiplied by one.
    rename_i hsmall
    have hone : (Float.exactlyRepresentablePowersOfTen[0]).toModel.unpack =
        .finite .positive (2 ^ 52) (-52) (by decide) := rfl
    change (Float.Model.pack (UnpackedFloat.mul _ n.toUInt64.toFloat.toModel.unpack
      (Float.exactlyRepresentablePowersOfTen[0]).toModel.unpack)).unpack = _
    rw [unpack_toFloat hn hm hsmall.1 hpos, hone]
    have hproduct := roundWithAccuracy_exact (s := .positive) (e := (n.log2 : Int) - 52) 52 hpos
      hleast hmost (by omega)
    change (Float.Model.pack (roundWithAccuracy Format.binary64 .positive (m * 2 ^ 52)
      ((n.log2 : Int) - 52 - (52 : Nat)) .exact)).unpack = _
    rw [hproduct]
    exact unpack_pack hpos hleast hmost (by omega) (by omega)
  · -- Many bits: the number is shifted by 53 places and rounded back.
    have hproduct := roundWithAccuracy_exact (s := .positive) (e := (n.log2 : Int) - 52)
      (n.log2 + 1) hpos hleast hmost (by omega)
    have hshift : (n <<< 53) * 1 = m * 2 ^ (n.log2 + 1) := by
      rw [Nat.shiftLeft_eq, mul_one, pow_succ 2 n.log2, ← mul_assoc, hm]
      omega
    have hexponent : (-53 : Int) + 0 = (n.log2 : Int) - 52 - (n.log2 + 1 : Nat) := by
      push_cast
      omega
    have hscientific : UnpackedFloat.ofScientific Format.binary64 n 0 =
        .finite .positive m ((n.log2 : Int) - 52) hpos := by
      have hfield : (2 : Int) ^ Format.binary64.exponentBits = 2048 := rfl
      rw [UnpackedFloat.ofScientific, dif_neg hn.ne', hfield, if_neg (by decide),
        if_neg (by omega), if_pos le_rfl]
      change roundWithAccuracy Format.binary64 .positive ((n <<< 53) * 1) (-53 + 0) .exact = _
      rw [hshift, hexponent, hproduct]
    change (Float.Model.pack (UnpackedFloat.ofScientific Format.binary64 n 0)).unpack = _
    rw [hscientific]
    exact unpack_pack hpos hleast hmost (by omega) (by omega)

namespace Binary

/-- But for its sign, the whole number has no more than 53 bits and no more than 971 zeros behind
them: it is a double. -/
def Exact (n : Int) : Prop := ∃ m e : Nat, n.natAbs = m * 2 ^ e ∧ m < 2 ^ 53 ∧ e ≤ 971

theorem Exact.exists_mantissa {n : Int} (h : Exact n) (hn : n ≠ 0) :
    n.natAbs.log2 < 1024 ∧ ∃ m, m * 2 ^ n.natAbs.log2 = n.natAbs * 2 ^ 52 := by
  obtain ⟨m, e, hvalue, hbits, hzeros⟩ := h
  have hm : m ≠ 0 := by
    rintro rfl
    rw [zero_mul] at hvalue
    exact hn (Int.natAbs_eq_zero.mp hvalue)
  have hlog : n.natAbs.log2 = m.log2 + e := by rw [hvalue, log2_mul_two_pow hm]
  have hmost : m.log2 ≤ 52 := Nat.lt_succ_iff.mp ((Nat.log2_lt hm).mpr hbits)
  refine ⟨by omega, m * 2 ^ (52 - m.log2), ?_⟩
  rw [hlog, hvalue, mul_assoc, ← pow_add, mul_assoc, ← pow_add]
  congr 2
  omega

theorem quotient_exact {m n : Nat} {l : Nat} (hm : m * 2 ^ l = n * 2 ^ 52) :
    (quotient m ((l : Int) - 52)).1 = n * (quotient m ((l : Int) - 52)).2 := by
  by_cases hl : 52 ≤ l
  · obtain ⟨q, rfl⟩ := Nat.exists_eq_add_of_le hl
    have hexponent : ((52 + q : Nat) : Int) - 52 = .ofNat q := by
      rw [Int.ofNat_eq_natCast]
      omega
    rw [hexponent]
    change m * 2 ^ q = n * 1
    refine Nat.eq_of_mul_eq_mul_right (Nat.two_pow_pos 52) ?_
    rw [mul_one, ← hm, pow_add, mul_assoc, mul_comm (2 ^ q)]
  · obtain ⟨q, hq⟩ := Nat.exists_eq_add_of_le (Nat.lt_of_not_le hl)
    have hexponent : (l : Int) - 52 = .negSucc q := by omega
    rw [hexponent]
    change m = n * 2 ^ (q + 1)
    refine Nat.eq_of_mul_eq_mul_right (Nat.two_pow_pos l) ?_
    rw [hm, mul_assoc, ← pow_add]
    congr 2
    omega

/-- The double stands for a whole number. -/
def StandsFor (b : Binary) (n : Int) : Prop :=
  ∃ den : Nat, 0 < den ∧ b.fraction? = some (n * den, den)

namespace StandsFor

variable {b : Binary} {n : Int}

theorem isWhole (h : b.StandsFor n) : b.isWhole = true := by
  obtain ⟨den, -, hfraction⟩ := h
  simp [Binary.isWhole, hfraction]

theorem truncated? (h : b.StandsFor n) : b.truncated? = some n := by
  obtain ⟨den, hden, hfraction⟩ := h
  have hne : (den : Int) ≠ 0 := by omega
  simp [Binary.truncated?, hfraction, Int.mul_tdiv_cancel n hne]

end StandsFor

theorem fraction?_den_pos {b : Binary} {num : Int} {den : Nat}
    (h : b.fraction? = some (num, den)) : 0 < den := by
  cases b with
  | finite negative m e =>
      obtain rfl := (Prod.mk.inj (Option.some.inj h)).2
      exact quotient_den_pos m e
  | _ => cases h

theorem exists_standsFor {b : Binary} (h : b.isWhole = true) : ∃ n, b.StandsFor n := by
  rw [isWhole] at h
  cases hfraction : b.fraction? with
  | none =>
      rw [hfraction] at h
      cases h
  | some fraction =>
      obtain ⟨num, den⟩ := fraction
      rw [hfraction] at h
      refine ⟨num / den, den, fraction?_den_pos hfraction, ?_⟩
      rw [Int.ediv_mul_cancel (Int.dvd_of_emod_eq_zero (eq_of_beq h)), hfraction]

theorem standsFor_zero (negative : Bool) (e : Int) : (Binary.finite negative 0 e).StandsFor 0 := by
  refine ⟨(quotient 0 e).2, quotient_den_pos 0 e, ?_⟩
  have hnum : (quotient 0 e).1 = 0 := by cases e <;> simp [quotient]
  simp [fraction?, hnum]

theorem standsFor_finite (negative : Bool) {l : Nat} (hm : m * 2 ^ l = n * 2 ^ 52) :
    (Binary.finite negative m ((l : Int) - 52)).StandsFor (if negative then -(n : Int) else n) := by
  refine ⟨(quotient m ((l : Int) - 52)).2, quotient_den_pos m _, ?_⟩
  have hnum := quotient_exact hm
  cases negative <;> simp [fraction?, hnum]

/-! ## Exact numbers are doubles -/

theorem Exact.exists_unpack {n : Int} (h : Exact n) (hn : n ≠ 0) :
    ∃ m e hpos, m * 2 ^ n.natAbs.log2 = n.natAbs * 2 ^ 52 ∧ e = (n.natAbs.log2 : Int) - 52 ∧
      (Float.ofScientific n.natAbs false 0).toModel.unpack = .finite .positive m e hpos ∧
      (-Float.ofScientific n.natAbs false 0).toModel.unpack = .finite .negative m e hpos := by
  obtain ⟨hlog, m, hm⟩ := h.exists_mantissa hn
  have hnat : 0 < n.natAbs := Int.natAbs_pos.mpr hn
  obtain ⟨hleast, hmost⟩ := mantissa_bounds hnat hm
  have hpos : 0 < m := by omega
  have hunpack := unpack_ofScientific hnat hm hlog hpos
  refine ⟨m, _, hpos, hm, rfl, hunpack, ?_⟩
  change (Float.Model.pack (Float.ofScientific n.natAbs false 0).toModel.unpack.neg).unpack = _
  rw [hunpack]
  exact unpack_pack hpos hleast hmost (by omega) (by omega)

/-- The nearest double of an exact number stands for it. -/
theorem Exact.exists_float {n : Int} (h : Exact n) :
    ∃ x, nearestFloat? n = some x ∧ (ofFloat x).StandsFor n := by
  by_cases hn : n = 0
  · subst hn
    exact ⟨0.0, rfl, standsFor_zero false (-1074)⟩
  obtain ⟨m, e, hpos, hm, rfl, hpositive, hnegative⟩ := h.exists_unpack hn
  have hfinite : (Float.ofScientific n.natAbs false 0).isInf = false := by
    change (Float.ofScientific n.natAbs false 0).toModel.unpack.isInf = false
    rw [hpositive]
    rfl
  by_cases hsign : n < 0
  · refine ⟨-Float.ofScientific n.natAbs false 0, ?_, ?_⟩
    · simp [nearestFloat?, hfinite, hsign]
    · have hstands := standsFor_finite true hm
      rw [if_pos rfl, Int.ofNat_natAbs_of_nonpos hsign.le, neg_neg] at hstands
      rw [ofFloat_eq, hnegative]
      exact hstands
  · refine ⟨Float.ofScientific n.natAbs false 0, ?_, ?_⟩
    · simp [nearestFloat?, hfinite, hsign]
    · have hstands := standsFor_finite false hm
      rw [if_neg Bool.false_ne_true, Int.natAbs_of_nonneg (not_lt.mp hsign)] at hstands
      rw [ofFloat_eq, hpositive]
      exact hstands

/-! ## Whole doubles are exact -/

theorem ofFloat_finite {x : Float} {negative : Bool} {m : Nat} {e : Int}
    (h : ofFloat x = .finite negative m e) : m < 2 ^ 53 ∧ e ≤ 971 := by
  have hfield := (@unpackExponent Format.binary64 x.toBits.toBitVec).isLt
  have hfraction := (@unpackMantissa Format.binary64 x.toBits.toBitVec).isLt
  rw [← field_eq] at hfield
  rw [← fraction_eq] at hfraction
  change _ < 2 ^ 11 at hfield
  change _ < 2 ^ 52 at hfraction
  simp only [ofFloat] at h
  split at h
  · split at h <;> cases h
  · split at h
    · obtain ⟨-, rfl, rfl⟩ := Binary.finite.inj h
      omega
    · obtain ⟨-, rfl, rfl⟩ := Binary.finite.inj h
      omega

/-- The whole number that a double stands for is exact. -/
theorem StandsFor.exact {x : Float} {n : Int} (h : (ofFloat x).StandsFor n) : Exact n := by
  obtain ⟨den, hden, hfraction⟩ := h
  cases hx : ofFloat x with
  | finite negative m e =>
      have hparts : (Binary.finite negative m e).fraction? = some
          (if negative then -((quotient m e).1 : Int) else (quotient m e).1, (quotient m e).2) := rfl
      rw [hx, hparts] at hfraction
      obtain ⟨hnum, rfl⟩ := Prod.mk.inj (Option.some.inj hfraction)
      obtain ⟨hbits, hzeros⟩ := ofFloat_finite hx
      have habs : n.natAbs * (quotient m e).2 = (quotient m e).1 := by
        have hsame := congrArg Int.natAbs hnum
        rw [Int.natAbs_mul, Int.natAbs_natCast] at hsame
        rw [← hsame]
        cases negative <;> simp
      cases e with
      | ofNat q =>
          rw [Int.ofNat_eq_natCast] at hzeros
          refine ⟨m, q, ?_, hbits, by omega⟩
          simpa [quotient] using habs
      | negSucc q =>
          refine ⟨n.natAbs, 0, by simp, ?_, by simp⟩
          calc n.natAbs ≤ n.natAbs * 2 ^ (q + 1) := Nat.le_mul_of_pos_right _ (Nat.two_pow_pos _)
            _ = m := habs
            _ < 2 ^ 53 := hbits
  | _ =>
      rw [hx] at hfraction
      cases hfraction

end Binary

end BlockNet
