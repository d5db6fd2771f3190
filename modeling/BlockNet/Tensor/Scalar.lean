import BlockNet.Decimal.Binary
/-! # Scalars

Layers and losses are written once, over any type with the arithmetic they need. Doubles are
the scalars that programs run on. -/

namespace BlockNet

/-- A type of numbers to compute with. `less` and `same` compare as numbers do, so a number that
is not `same` as itself stands for no number at all. -/
class Scalar (α : Type) extends Zero α, Add α, Sub α, Mul α, Div α, Neg α where
  ofInt : Int → α
  ofFloat : Float → α
  toFloat : α → Float
  truncated : α → Int
  exp : α → α
  log : α → α
  sqrt : α → α
  tanh : α → α
  less : α → α → Bool
  same : α → α → Bool

/-- The whole number that a double is cut to. What does not fit into 64 bits becomes the
smallest of them. -/
def wordOfFloat (x : Float) : Int :=
  match (Binary.ofFloat x).truncated? with
  | some n => if (Int64.ofInt n).toInt = n then n else Int64.minValue.toInt
  | none => Int64.minValue.toInt

/-- The double nearest a natural number, infinite if it is beyond all doubles. A number that fits
into 64 bits is converted as a word, which is quicker. -/
def floatOfNat (n : Nat) : Float :=
  if n < UInt64.size then (UInt64.ofNat n).toFloat else Float.ofScientific n false 0

/-- The double nearest a whole number, infinite if it is beyond all doubles. -/
def floatOfInt (n : Int) : Float :=
  let x := floatOfNat n.natAbs
  if n < 0 then -x else x

instance : Scalar Float where
  zero := 0.0
  ofInt := floatOfInt
  ofFloat := id
  toFloat := id
  truncated := wordOfFloat
  exp := Float.exp
  log := Float.log
  sqrt := Float.sqrt
  tanh := Float.tanh
  less x y := x < y
  same x y := x == y

namespace Scalar

variable {α : Type} [Scalar α]

/-- One. -/
def one : α := ofInt 1

/-- Is it no number at all? -/
def isNan (x : α) : Bool := !same x x

/-- Is it a number, and not an infinite one? Only such a number leaves nothing when it is taken off
itself. -/
def isFinite (x : α) : Bool := same (x - x) 0

/-- Is the first number at most the second? -/
def atMost (x y : α) : Bool := less x y || same x y

/-- The distance from zero. -/
def magnitude (x : α) : α := if less 0 x then x else 0 - x

/-- The square. -/
def square (x : α) : α := x * x

/-- The sum of the first `n` values of a function. -/
@[specialize]
def sum (n : Nat) (f : Nat → α) : α := n.fold (fun k _ acc => acc + f k) 0

/-- The mean of the first `n` values of a function. -/
def mean (n : Nat) (f : Nat → α) : α := sum n f / ofInt n

/-- The larger of two numbers; what is no number wins. -/
def larger (x y : α) : α := if less x y || isNan y then y else x

/-- The largest of the values of a function at `0, …, n`. -/
@[specialize]
def largest (n : Nat) (f : Nat → α) : α := n.fold (fun k _ acc => larger acc (f (k + 1))) (f 0)

/-- The logistic function. -/
def sigmoid (x : α) : α := one / (one + exp (-x))

end Scalar

end BlockNet
