import BlockNet.Value.Reading
/-! # Arithmetic on numbers of the editor

Whole numbers are divided and multiplied exactly, whatever their size, and rounded to a double at
most once. -/

namespace BlockNet

/-- The double nearest `num / den`, ties to even; none if it is beyond the largest double. -/
def nearestQuotient? (num den : Int) : Option Float :=
  match Binary.ofQuotient num den with
  | .finite negative mantissa exponent =>
      let x := (Float.ofScientific mantissa false 0).scaleB exponent
      some (if negative then -x else x)
  | _ => none

namespace Binary

/-- The whole number at or below a double. -/
def floor (b : Binary) : Outcome Int :=
  match b with
  | .nan => mishap .unreadable
  | .infinite _ => mishap .tooLarge
  | b => .ok ((b.fraction?.map fun (num, den) => Int.fdiv num den).getD 0)

/-- The whole number at or above a double. -/
def ceil (b : Binary) : Outcome Int :=
  match b with
  | .nan => mishap .unreadable
  | .infinite _ => mishap .tooLarge
  | b => .ok ((b.fraction?.map fun (num, den) => -Int.fdiv (-num) den).getD 0)

end Binary

/-- The double that a value is written as among figures. A text is no figure, and what is no number
cannot be written as one. -/
def Value.figure : Value → Outcome Float
  | .text _ => mishap .unreadable
  | v => do orMishap .tooLarge (← orMishap .wrongType v.number?).float?

namespace Number

/-- The double nearest a number, which must not be beyond all doubles. -/
def toFloat (n : Number) : Outcome Float := orMishap .tooLarge n.float?

/-- The double by which tensors are multiplied for a number. A whole number must fit into a word of
64 bits, with a sign or without one. -/
def toFactor (n : Number) : Outcome Float :=
  match n with
  | .whole k =>
      if k < Int64.minValue.toInt ∨ UInt64.size ≤ k then mishap .tooLarge else n.toFloat
  | n => n.toFloat

/-- The number before a number. -/
def pred (a : Number) : Number :=
  match a.integer?, a with
  | some n, _ => .whole (n - 1)
  | none, .real x => .real (x - 1)
  | none, a => a

/-- The quotient of two numbers as a double. -/
def dividedBy (a b : Number) : Outcome Float :=
  match a.integer?, b.integer? with
  | some m, some n =>
      if n = 0 then mishap .zeroDivisor else orMishap .tooLarge (nearestQuotient? m n)
  | _, _ => do
      let x ← a.toFloat
      let y ← b.toFloat
      if y == 0 then mishap .zeroDivisor else .ok (x / y)

/-- The whole number at or above the quotient of two numbers, which is a double also if both are
whole. -/
def ceilDividedBy (a b : Number) : Outcome Int :=
  match a.integer?, b.integer? with
  | some m, some n => if n = 0 then mishap .zeroDivisor else (Binary.ofQuotient m n).ceil
  | _, _ => do (Binary.ofFloat (← a.dividedBy b)).ceil

/-- The product of two numbers, whole if both are. -/
def times (a b : Number) : Outcome Number :=
  match a.integer?, b.integer? with
  | some m, some n => .ok (.whole (m * n))
  | _, _ => do .ok (.real ((← a.toFloat) * (← b.toFloat)))

/-- The sum of two numbers, whole if both are. -/
def plus (a b : Number) : Outcome Number :=
  match a.integer?, b.integer? with
  | some m, some n => .ok (.whole (m + n))
  | _, _ => do .ok (.real ((← a.toFloat) + (← b.toFloat)))

/-- The first number less the second, whole if both are. -/
def minus (a b : Number) : Outcome Number :=
  match a.integer?, b.integer? with
  | some m, some n => .ok (.whole (m - n))
  | _, _ => do .ok (.real ((← a.toFloat) - (← b.toFloat)))

/-- The whole number that a number is cut to. -/
def toInt (a : Number) : Outcome Int := a.toValue.toInt

/-- A double to a whole power. A finite double has no infinite power. -/
def realPower (x : Float) (k : Int) : Outcome Float := do
  let y := x.pow (← (Number.whole k).toFloat)
  if y.isInf && !x.isInf then mishap .tooLarge else .ok y

/-- The smaller of two numbers; the first unless the second is below it. -/
def smaller (a b : Number) : Number := if b.lt a then b else a

/-- The larger of two numbers; the first unless it is below the second. -/
def larger (a b : Number) : Number := if a.lt b then b else a

end Number

end BlockNet
