import BlockNet.Decimal.Binary
import Mathlib

/-! # Doubles in parts

The number behind a double is read off its bits, and so are the parts that its operations work on.
Both readings give the same. -/

namespace BlockNet

open Float.Model UnpackedFloat

namespace Binary

/-- Does a sign make a number negative? -/
def isNegative : Sign → Bool
  | .negative => true
  | .positive => false

/-- The number behind the parts of a double. -/
def ofParts : UnpackedFloat → Binary
  | .notANumber => .nan
  | .infinity s => .infinite (isNegative s)
  | .zero s => .finite (isNegative s) 0 (-1074)
  | .finite s m e _ => .finite (isNegative s) m e

theorem isNegative_ofBitVec (b : BitVec 1) : isNegative (Sign.ofBitVec b) = (b == 1#1) := by
  revert b
  decide

theorem field_eq (b : UInt64) : ((b >>> 52) &&& 0x7ff).toNat =
    (@unpackExponent Format.binary64 b.toBitVec).toNat := by
  rw [unpackExponent_def, BitVec.extractLsb'_toNat, UInt64.toNat_and, UInt64.toNat_shiftRight]
  exact Nat.and_two_pow_sub_one_eq_mod _ 11

theorem fraction_eq (b : UInt64) : (b &&& 0xfffffffffffff).toNat =
    (@unpackMantissa Format.binary64 b.toBitVec).toNat := by
  rw [unpackMantissa_def, BitVec.extractLsb'_toNat, UInt64.toNat_and]
  exact Nat.and_two_pow_sub_one_eq_mod _ 52

theorem sign_eq (b : UInt64) : (b >>> 63 == 1) =
    isNegative (Sign.ofBitVec (@unpackSign Format.binary64 b.toBitVec)) := by
  rw [isNegative_ofBitVec, unpackSign_def, Bool.eq_iff_iff, beq_iff_eq, beq_iff_eq,
    ← UInt64.toNat_inj, ← BitVec.toNat_inj, BitVec.extractLsb'_toNat, UInt64.toNat_shiftRight]
  have hlt : b.toNat >>> 63 < 2 := by
    rw [Nat.shiftRight_eq_div_pow]
    have := b.toNat_lt
    omega
  change b.toNat >>> 63 = 1 ↔ b.toNat >>> 63 % 2 = 1
  rw [Nat.mod_eq_of_lt hlt]

theorem toNat_implicit (f : BitVec 52) : (1#1 ++ f).toNat = f.toNat + 0x10000000000000 := by
  rw [BitVec.toNat_append, ← Nat.shiftLeft_add_eq_or_of_lt f.isLt, Nat.add_comm]
  rfl

/-- The number behind a double is that behind its parts. -/
theorem ofFloat_eq (x : Float) : ofFloat x = ofParts x.toModel.unpack := by
  have htop (e : BitVec 11) : e.toNat = 2047 ↔ e = -1#11 := by
    rw [← BitVec.toNat_inj]
    rfl
  have hbottom (e : BitVec 11) : e.toNat = 0 ↔ e = 0#11 := by
    rw [← BitVec.toNat_inj]
    rfl
  have hnone (f : BitVec 52) : f.toNat = 0 ↔ f = 0#52 := by
    rw [← BitVec.toNat_inj]
    rfl
  have hbits : x.toBits = x.toModel.toBits := rfl
  simp only [ofFloat, hbits, field_eq, fraction_eq, sign_eq, Float.Model.unpack, UnpackedFloat.unpack]
  simp only [htop, hbottom, hnone]
  split
  · split
    · rfl
    · rfl
  · split
    · rename_i hexponent
      split
      · rename_i hfraction
        simp [ofParts, hfraction]
      · simp [ofParts, hexponent]
        decide
    · simp only [ofParts, toNat_implicit]
      rfl

end Binary

/-! ## Packing -/

/-- A double with all of its 53 bits is unpacked as it was packed. -/
theorem unpack_pack {s : Sign} {m : Nat} {e : Int} (hpos : 0 < m) (hleast : 2 ^ 52 ≤ m)
    (hmost : m < 2 ^ 53) (hlow : -1074 ≤ e) (hhigh : e ≤ 971) :
    (Float.Model.pack (.finite s m e hpos)).unpack = .finite s m e hpos := by
  have hlog : m.log2 = 52 := (Nat.log2_eq_iff hpos.ne').mpr ⟨hleast, hmost⟩
  have hbiased : (e + (Format.binary64.exponentBias : Nat) + (52 : Nat)).toNat = (e + 1075).toNat := by
    change (e + (1023 : Nat) + (52 : Nat)).toNat = _
    omega
  have hfield : (BitVec.ofNat 11 (e + 1075).toNat).toNat = (e + 1075).toNat := by
    rw [BitVec.toNat_ofNat, Nat.mod_eq_of_lt (by omega)]
  have hbottom : BitVec.ofNat 11 (e + 1075).toNat ≠ 0#11 := by
    intro h
    have := hfield.symm.trans (congrArg BitVec.toNat h)
    change (e + 1075).toNat = 0 at this
    omega
  have htop : BitVec.ofNat 11 (e + 1075).toNat ≠ -1#11 := by
    intro h
    have := hfield.symm.trans (congrArg BitVec.toNat h)
    change (e + 1075).toNat = 2047 at this
    omega
  have hmantissa : (1#1 ++ BitVec.ofNat 52 m).toNat = m := by
    rw [Binary.toNat_implicit, BitVec.toNat_ofNat]
    omega
  simp only [Float.Model.unpack, Float.Model.pack, UnpackedFloat.pack, hlog, hbiased]
  have hbits : 52 + 1 = Format.binary64.mantissaBits := rfl
  rw [if_neg (by omega), if_pos hbits]
  simp only [UnpackedFloat.unpack, unpackExponent_packComponents, unpackMantissa_packComponents,
    unpackSign_packComponents, Sign.ofBitVec_toBitVec, if_neg hbottom, if_neg htop, hmantissa, hfield]
  congr 1
  change (((e + 1075).toNat : Nat) : Int) - 1075 = e
  omega

end BlockNet
