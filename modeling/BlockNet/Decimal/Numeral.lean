import BlockNet.Decimal.Binary
import BlockNet.Text.Blank
import BlockNet.Text.Digit
/-! # Numbers read from text

Blanks around a number are dropped unless they separate records, its digits may be of any script,
and a single underscore may stand between two digits. -/

namespace BlockNet.Numeral

/-- Digits of every script as ASCII digits; other characters stay. -/
def plainDigits (cs : List Char) : List Char :=
  cs.map fun c => match Text.digitValue? c with
    | some d => Nat.digitChar d
    | none => c

/-- Removes the underscores between digits; none if one stands anywhere else. The flag tells
whether the character before was a digit. -/
def dropUnderscores : Bool → List Char → Option (List Char)
  | _, [] => some []
  | afterDigit, '_' :: c :: rest =>
      if afterDigit && c.isDigit then (dropUnderscores true rest).map (c :: ·) else none
  | _, ['_'] => none
  | _, c :: rest => (dropUnderscores c.isDigit rest).map (c :: ·)

/-- An optional sign in front: is the number negative, and what follows. -/
def signed : List Char → Bool × List Char
  | '-' :: rest => (true, rest)
  | '+' :: rest => (false, rest)
  | cs => (false, cs)

/-- May the character stand around a number? -/
def isPadding (c : Char) : Bool := Text.isBlank c && !Text.isSeparator c

/-- The characters of a number: without what stands around it and between its digits, and with
ASCII digits. -/
def bare? (s : String) : Option (List Char) :=
  dropUnderscores false (plainDigits (Text.trim isPadding s.toList))

/-- The value of ASCII digits. -/
def digitsValue (cs : List Char) : Nat :=
  cs.foldl (fun n c => 10 * n + (c.toNat - '0'.toNat)) 0

/-- The greatest number of digits that a whole number may be written with. -/
def digitLimit : Nat := 4300

/-- A whole number: a sign and digits, and nothing else. -/
def whole? (s : String) : Option Int := do
  let cs ← bare? s
  let (negative, ds) := signed cs
  if ds.isEmpty || !ds.all Char.isDigit || digitLimit < ds.length then none
  else
    let n := digitsValue ds
    some (if negative then -(n : Int) else n)

/-- The double nearest `digits · 10 ^ exponent`. Beyond the range of doubles, where the powers
of ten would only cost time, it is zero or infinite. -/
def nearest (digits : Nat) (exponent : Int) : Float :=
  let size := (Nat.toDigits 10 digits).length
  if digits = 0 then 0.0
  else if (size : Int) + exponent < -400 then 0.0
  else if 400 < (size : Int) + exponent then 1.0 / 0.0
  else Float.ofScientific digits (exponent < 0) exponent.natAbs

/-- The exponent after the digits of a number: nothing, or a mark, a sign and digits. -/
def exponentPart? : List Char → Option Int
  | [] => some 0
  | c :: rest =>
      if c = 'e' || c = 'E' then
        let (negative, ds) := signed rest
        if ds.isEmpty || !ds.all Char.isDigit then none
        else some (if negative then -(digitsValue ds : Int) else digitsValue ds)
      else none

/-- An unsigned number with optional point and exponent. -/
def magnitude? (cs : List Char) : Option Float := do
  let front := cs.takeWhile Char.isDigit
  let rest := cs.dropWhile Char.isDigit
  let (back, tail) := match rest with
    | '.' :: more => (more.takeWhile Char.isDigit, more.dropWhile Char.isDigit)
    | _ => ([], rest)
  if front.isEmpty && back.isEmpty then none
  else
    let e ← exponentPart? tail
    some (nearest (digitsValue (front ++ back)) (e - back.length))

/-- The names of what is not a finite number, in any letter case. -/
def named? (cs : List Char) : Option Float :=
  match String.ofList (cs.map Char.toLower) with
  | "inf" => some (1.0 / 0.0)
  | "infinity" => some (1.0 / 0.0)
  | "nan" => some (0.0 / 0.0)
  | _ => none

/-- A number with optional point and exponent, an infinity or a NaN. -/
def real? (s : String) : Option Float := do
  let cs ← bare? s
  let (negative, body) := signed cs
  let x ← (named? body).or (magnitude? body)
  some (if negative then -x else x)

end BlockNet.Numeral
