/-! # Doubles as exact binary numbers

Every rule about the text or the order of a double is a rule about the number `± m · 2 ^ q`
that it stands for, so it is read off its bits once, here. -/

namespace BlockNet

/-- What a double stands for. -/
inductive Binary where
  | nan
  | infinite (negative : Bool)
  | finite (negative : Bool) (mantissa : Nat) (exponent : Int)
  deriving DecidableEq, Repr

namespace Binary

/-- The number behind a double. -/
def ofFloat (x : Float) : Binary :=
  let bits := x.toBits
  let negative := bits >>> 63 == 1
  let field := ((bits >>> 52) &&& 0x7ff).toNat
  let fraction := (bits &&& 0xfffffffffffff).toNat
  if field = 2047 then if fraction = 0 then .infinite negative else .nan
  else if field = 0 then .finite negative fraction (-1074)
  else .finite negative (fraction + 0x10000000000000) ((field : Int) - 1075)

/-- The magnitude `m · 2 ^ q` as a numerator over a power of two. -/
def quotient (mantissa : Nat) (exponent : Int) : Nat × Nat :=
  match exponent with
  | .ofNat q => (mantissa * Nat.pow 2 q, 1)
  | .negSucc q => (mantissa, Nat.pow 2 (q + 1))

/-- The denominator of a magnitude is positive. -/
theorem quotient_den_pos (mantissa : Nat) (exponent : Int) :
    0 < (quotient mantissa exponent).2 := by
  cases exponent with
  | ofNat q => exact Nat.one_pos
  | negSucc q => exact Nat.pow_pos Nat.two_pos

/-- The numerator and denominator of a finite double, the numerator carrying the sign. -/
def fraction? : Binary → Option (Int × Nat)
  | .finite negative mantissa exponent =>
      let (num, den) := quotient mantissa exponent
      some (if negative then -(num : Int) else num, den)
  | _ => none

/-- The integer part of a finite double, its fraction dropped. -/
def truncated? (b : Binary) : Option Int :=
  b.fraction?.map fun (num, den) => num.tdiv den

/-- Does the double stand for an integer? -/
def isWhole (b : Binary) : Bool :=
  match b.fraction? with
  | some (num, den) => num % (den : Int) == 0
  | none => false

/-- The order of a double and an integer, both exact; nothing compares with a NaN. -/
def compareInt (b : Binary) (n : Int) : Option Ordering :=
  match b with
  | .nan => none
  | .infinite negative => some (if negative then .lt else .gt)
  | b => b.fraction?.map fun (num, den) => compare num (n * den)

/-- The double nearest `num / den`, ties to even. The quotient is scaled to the 53 bits of a double,
or to the fewer ones that a tiny double has, and rounded there. -/
def ofQuotient (num den : Int) : Binary :=
  let n := num.natAbs
  let d := den.natAbs
  let negative : Bool := decide ((num < 0) ≠ (den < 0))
  let fits := fun places : Int => n <<< places.toNat < d <<< ((-places).toNat + 53)
  let near : Int := 52 + d.log2 - n.log2
  let places := min (if fits (near + 1) then near + 1 else near) 1074
  let (wide, deep) := (n <<< places.toNat, d <<< (-places).toNat)
  let (whole, rest) := (wide / deep, wide % deep)
  let mantissa := if deep < 2 * rest ∨ (2 * rest = deep ∧ whole % 2 = 1) then whole + 1 else whole
  if 1024 ≤ mantissa.log2 - places then .infinite negative
  else .finite negative mantissa (-places)

end Binary

/-- The double nearest an integer, ties to even; none if it is beyond the largest double. -/
def nearestFloat? (n : Int) : Option Float :=
  let x := Float.ofScientific n.natAbs false 0
  if x.isInf then none else some (if n < 0 then -x else x)

end BlockNet
