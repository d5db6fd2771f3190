import BlockNet.Value.Basic
/-! # Numbers among the values -/

namespace BlockNet

/-- A number of the editor: a truth value counts as zero or one, whole numbers have any size. -/
inductive Number where
  | flag (b : Bool)
  | whole (n : Int)
  | real (x : Float)

namespace Number

/-- The number as a value again. -/
def toValue : Number → Value
  | .flag b => .bool b
  | .whole n => .int n
  | .real x => .real x

/-- The whole number behind a truth value or a whole number. -/
def integer? : Number → Option Int
  | .flag b => some (if b then 1 else 0)
  | .whole n => some n
  | .real _ => none

/-- The number as a numerator over a denominator; none for what is infinite or no number. -/
def fraction? : Number → Option (Int × Nat)
  | .flag b => some (if b then 1 else 0, 1)
  | .whole n => some (n, 1)
  | .real x => (Binary.ofFloat x).fraction?

/-- The exact order of two numbers; nothing compares with a NaN. -/
def compare (a b : Number) : Option Ordering :=
  match a, b with
  | .real x, .real y =>
      if x < y then some .lt else if x == y then some .eq else if y < x then some .gt else none
  | .real x, b => (Binary.ofFloat x).compareInt (b.integer?.getD 0)
  | a, .real y => ((Binary.ofFloat y).compareInt (a.integer?.getD 0)).map Ordering.swap
  | a, b => some (Ord.compare (a.integer?.getD 0) (b.integer?.getD 0))

/-- Is the first number below the second? False beside a NaN. -/
def lt (a b : Number) : Bool := a.compare b == some .lt

/-- Is the first number at most the second? False beside a NaN. -/
def le (a b : Number) : Bool := a.compare b == some .lt || a.compare b == some .eq

/-- Are the numbers equal, whatever their kinds? -/
def eq (a b : Number) : Bool := a.compare b == some .eq

/-- The double nearest the number; none for a whole number beyond all doubles. -/
def float? : Number → Option Float
  | .flag b => some (if b then 1 else 0)
  | .whole n => nearestFloat? n
  | .real x => some x

end Number

namespace Value

/-- The number a value is, if it is one. -/
def number? : Value → Option Number
  | .bool b => some (.flag b)
  | .int n => some (.whole n)
  | .real x => some (.real x)
  | _ => none

mutual

/-- Are two values equal? Numbers compare by what they stand for, dicts without regard to
order. The flag says whether a NaN is equal to itself. -/
def equal (nanEqual : Bool) : Value → Value → Bool
  | .null, .null => true
  | .text s, .text t => s == t
  | .dim d, .dim e => d == e
  | .list xs, .list ys => equalItems nanEqual xs ys
  | .tuple xs, .tuple ys => equalItems nanEqual xs ys
  | .dict es, .dict fs => es.length == fs.length && equalEntries nanEqual es fs
  | .real x, .real y => x == y || (nanEqual && x.isNaN && y.isNaN)
  | a, b =>
      match a.number?, b.number? with
      | some m, some n => m.eq n
      | _, _ => false

/-- Are two lists equal member by member? -/
def equalItems (nanEqual : Bool) : List Value → List Value → Bool
  | [], [] => true
  | x :: xs, y :: ys => equal nanEqual x y && equalItems nanEqual xs ys
  | _, _ => false

/-- Does the second list of entries hold every entry of the first? -/
def equalEntries (nanEqual : Bool) : List (Value × Value) → List (Value × Value) → Bool
  | [], _ => true
  | (key, x) :: rest, fs =>
      fs.any (fun f => equal nanEqual key f.1 && equal nanEqual x f.2)
        && equalEntries nanEqual rest fs

end

/-- Are two values the same key? Equal values are, so numbers of different kinds may be one key. -/
def sameKey : Value → Value → Bool
  | .text s, .text t => s == t
  | a, b => a.equal false b

mutual

/-- Can two keys be put in order? Texts can, and numbers, and tuples whose first members that
differ can. -/
def comparable : Value → Value → Bool
  | .text _, .text _ => true
  | .tuple xs, .tuple ys => comparableItems xs ys
  | a, b => a.number?.isSome && b.number?.isSome

/-- Can two lists be put in order by their first members that differ? -/
def comparableItems : List Value → List Value → Bool
  | x :: xs, y :: ys => if x.sameKey y then comparableItems xs ys else comparable x y
  | _, _ => true

end

/-- A text is the same key as no other value. -/
theorem sameKey_text {key : Value} {name : String} :
    key.sameKey (.text name) = true ↔ key = .text name := by
  cases key <;> simp [sameKey, equal, number?]

theorem text_sameKey {key : Value} {name : String} :
    (Value.text name).sameKey key = true ↔ key = .text name := by
  cases key with
  | text s => simpa [sameKey] using eq_comm
  | _ => simp [sameKey, equal, number?]

end Value

end BlockNet
