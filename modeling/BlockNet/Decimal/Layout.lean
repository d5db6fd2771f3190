import BlockNet.Decimal.Binary
import BlockNet.Decimal.Digits
/-! # Doubles as decimal text

Three layouts of one exact number: a fixed count of places, a fixed count of places with an
exponent, and the fewest digits that read back. -/

namespace BlockNet.Decimal

/-- The sign in front of a number. -/
def sign (negative : Bool) : String := if negative then "-" else ""

/-- The texts of what is not a finite number; a finite one is laid out by `finite`. -/
def special (x : Float) (finite : Bool → Nat → Int → String) : String :=
  match Binary.ofFloat x with
  | .nan => "nan"
  | .infinite negative => sign negative ++ "inf"
  | .finite negative mantissa exponent => finite negative mantissa exponent

/-- Digits with a point before the last `places` of them. -/
def pointed (places n : Nat) : String :=
  let ds := digits (places + 1) n
  let whole := String.ofList (ds.take (ds.length - places))
  if places = 0 then whole else whole ++ "." ++ String.ofList (ds.drop (ds.length - places))

/-- A decimal exponent: its sign and at least two digits. -/
def exponentMark (e : Int) : String :=
  "e" ++ (if e < 0 then "-" else "+") ++ String.ofList (digits 2 e.natAbs)

/-- The number rounded to a count of places, a half to the even neighbour. -/
def fixed (places : Nat) (x : Float) : String :=
  special x fun negative mantissa exponent =>
    let (num, den) := Binary.quotient mantissa exponent
    sign negative ++ pointed places (roundDiv (num * Nat.pow 10 places) den)

/-- The first digits of a positive quotient, `places` of them after the leading one, with the
exponent of the leading digit. -/
def leading (places num den : Nat) : Nat × Int :=
  let e := magnitude num den
  let (n, d) := scale num den (places - e)
  let rounded := roundDiv n d
  if rounded < Nat.pow 10 (places + 1) then (rounded, e) else (rounded / 10, e + 1)

/-- The number with one digit before the point, `places` after it, and an exponent. -/
def exponential (places : Nat) (x : Float) : String :=
  special x fun negative mantissa exponent =>
    let (num, den) := Binary.quotient mantissa exponent
    let (ds, e) := if mantissa = 0 then (0, 0) else leading places num den
    sign negative ++ pointed places ds ++ exponentMark e

/-- The quarter units around a mantissa that still round to it: how many of them below and
above. The gap below a power of two is half as wide. -/
def reach (mantissa : Nat) (exponent : Int) : Nat × Nat :=
  if mantissa = 0x10000000000000 ∧ -1074 < exponent then (1, 2) else (2, 2)

/-- Does the grid point `k · 10 ^ e` round to the double `mantissa · 2 ^ exponent`? The ends of
the interval belong to an even mantissa. -/
def readsBack (mantissa : Nat) (exponent : Int) (k : Nat) (e : Int) : Bool :=
  let (below, above) := reach mantissa exponent
  let (lowNum, lowDen) := Binary.quotient (4 * mantissa - below) (exponent - 2)
  let (highNum, highDen) := Binary.quotient (4 * mantissa + above) (exponent - 2)
  let (n, d) := scale k 1 e
  if mantissa % 2 = 0 then lowNum * d ≤ n * lowDen && n * highDen ≤ highNum * d
  else lowNum * d < n * lowDen && n * highDen < highNum * d

/-- The neighbour of a positive double on the grid of `10 ^ e` that reads back, the nearer of
two. -/
def onGrid? (mantissa : Nat) (exponent e : Int) : Option Nat :=
  let (num, den) := Binary.quotient mantissa exponent
  let (n, d) := scale num den (-e)
  let near := roundDiv n d
  let low := n / d
  let far := if near = low then low + 1 else low
  if readsBack mantissa exponent near e then some near
  else if readsBack mantissa exponent far e then some far
  else none

/-- The coarsest grid that holds a decimal reading back as the double, tried from `e` downward,
with that decimal. -/
def coarsest (mantissa : Nat) (exponent : Int) : Nat → Int → Nat × Int
  | 0, e => ((onGrid? mantissa exponent e).getD 0, e)
  | more + 1, e =>
      match onGrid? mantissa exponent e with
      | some k => (k, e)
      | none => coarsest mantissa exponent more (e - 1)

/-- The fewest digits that read back as a positive double, and the exponent of the last one. -/
def shortestDigits (mantissa : Nat) (exponent : Int) : Nat × Int :=
  let (num, den) := Binary.quotient mantissa exponent
  coarsest mantissa exponent 17 (magnitude num den)

/-- Digits and the exponent of the last one, written without zeros at the end. -/
def stripZeros : Nat → Nat → Int → Nat × Int
  | 0, k, e => (k, e)
  | fuel + 1, k, e => if k % 10 = 0 then stripZeros fuel (k / 10) (e + 1) else (k, e)

/-- The fewest digits that read back. The number stands in positional form with at least one
place while its leading exponent is in `[-4, 16)`, else with an exponent. -/
def shortest (x : Float) : String :=
  special x fun negative mantissa exponent =>
    if mantissa = 0 then sign negative ++ "0.0"
    else
      let (k, e) := shortestDigits mantissa exponent
      let (k, e) := stripZeros 20 k e
      let count := width k
      let lead := e + count - 1
      sign negative ++
        if -4 ≤ lead ∧ lead < 16 then
          if 0 ≤ e then toString (k * Nat.pow 10 e.toNat) ++ ".0" else pointed e.natAbs k
        else pointed (count - 1) k ++ exponentMark lead

/-- A share as a percentage with a count of places. -/
def percent (places : Nat) (x : Float) : String := fixed places (x * 100) ++ "%"

/-- A whole number with a comma between groups of three digits. -/
def grouped (n : Nat) : String :=
  let rec go : List Char → List Char
    | a :: b :: c :: d :: rest => a :: b :: c :: ',' :: go (d :: rest)
    | cs => cs
  String.ofList (go (Nat.toDigits 10 n).reverse).reverse

end BlockNet.Decimal
