import BlockNet.Value.Entries
import BlockNet.Decimal.Numeral
/-! # Values as JSON text

The editor exchanges values as JSON. Reading keeps the order of the members of an object; a
member that comes twice keeps its first place and its last value. Whole numbers are read
exactly, up to the size that a numeral may have. -/

namespace BlockNet.Json

/-- Drops the four blanks of JSON. -/
def skip (cs : List Char) : List Char :=
  cs.dropWhile fun c => c = ' ' || c = '\n' || c = '\t' || c = '\r'

/-- The value of a hexadecimal digit. -/
def hexValue? (c : Char) : Option Nat :=
  if c.isDigit then some (c.toNat - '0'.toNat)
  else if 'a' ≤ c && c ≤ 'f' then some (c.toNat - 'a'.toNat + 10)
  else if 'A' ≤ c && c ≤ 'F' then some (c.toNat - 'A'.toNat + 10)
  else none

/-- Four hexadecimal digits and what follows. -/
def unit? : List Char → Option (Nat × List Char)
  | a :: b :: c :: d :: rest => do
      let a ← hexValue? a
      let b ← hexValue? b
      let c ← hexValue? c
      let d ← hexValue? d
      some (((a * 16 + b) * 16 + c) * 16 + d, rest)
  | _ => none

/-- A code point written as one unit or as a pair of surrogates. -/
def codePoint? (cs : List Char) : Option (Char × List Char) := do
  let (high, rest) ← unit? cs
  match rest with
  | '\\' :: 'u' :: more =>
      if 0xd800 ≤ high && high < 0xdc00 then
        let (low, tail) ← unit? more
        if 0xdc00 ≤ low && low < 0xe000 then
          return (Char.ofNat (0x10000 + (high - 0xd800) * 0x400 + (low - 0xdc00)), tail)
        return (Char.ofNat high, rest)
      return (Char.ofNat high, rest)
  | _ => return (Char.ofNat high, rest)

/-- The characters of a string up to its closing quote, gathered in reverse. -/
def stringBody? : Nat → List Char → List Char → Option (String × List Char)
  | 0, _, _ => none
  | _ + 1, _, [] => none
  | _ + 1, acc, '"' :: rest => some (String.ofList acc.reverse, rest)
  | fuel + 1, acc, '\\' :: c :: rest =>
      match c with
      | 'n' => stringBody? fuel ('\n' :: acc) rest
      | 't' => stringBody? fuel ('\t' :: acc) rest
      | 'r' => stringBody? fuel ('\r' :: acc) rest
      | 'b' => stringBody? fuel ('\x08' :: acc) rest
      | 'f' => stringBody? fuel ('\x0c' :: acc) rest
      | 'u' => (codePoint? rest).bind fun (d, tail) => stringBody? fuel (d :: acc) tail
      | c =>
          if c = '"' || c = '\\' || c = '/' then stringBody? fuel (c :: acc) rest else none
  | fuel + 1, acc, c :: rest => if c.toNat < 0x20 then none else stringBody? fuel (c :: acc) rest

/-- A number: whole if it has neither point nor exponent. -/
def number? (cs : List Char) : Option (Value × List Char) := do
  let inside := fun c : Char => c.isDigit || c = '-' || c = '+' || c = '.' || c = 'e' || c = 'E'
  let body := cs.takeWhile inside
  let rest := cs.dropWhile inside
  let (negative, magnitude) := match body with
    | '-' :: m => (true, m)
    | m => (false, m)
  if magnitude.isEmpty || !(magnitude.head?.getD ' ').isDigit then none
  else if magnitude.all Char.isDigit then
    if Numeral.digitLimit < magnitude.length then none
    else
      let n := Numeral.digitsValue magnitude
      some (.int (if negative then -(n : Int) else n), rest)
  else
    let x ← Numeral.magnitude? magnitude
    some (.real (if negative then -x else x), rest)

/-- A number that is not finite, by its name. -/
def special? (cs : List Char) : Option (Value × List Char) :=
  let names : List (String × Float) :=
    [("NaN", 0.0 / 0.0), ("Infinity", 1.0 / 0.0), ("-Infinity", -1.0 / 0.0)]
  (names.find? fun e => e.1.toList.isPrefixOf cs).map fun e =>
    (.real e.2, cs.drop e.1.length)

mutual

/-- A value and what follows it. The fuel bounds the nesting and the length. -/
def value? : Nat → List Char → Option (Value × List Char)
  | 0, _ => none
  | fuel + 1, cs =>
      match skip cs with
      | '"' :: rest => (stringBody? (rest.length + 1) [] rest).map fun (s, r) => (.text s, r)
      | '[' :: rest =>
          match skip rest with
          | ']' :: r => some (.list [], r)
          | r => (items? fuel [] r).map fun (items, tail) => (.list items, tail)
      | '\x7b' :: rest =>
          match skip rest with
          | '\x7d' :: r => some (.dict [], r)
          | r => (members? fuel [] r).map fun (entries, tail) => (.dict entries, tail)
      | 't' :: 'r' :: 'u' :: 'e' :: rest => some (.bool true, rest)
      | 'f' :: 'a' :: 'l' :: 's' :: 'e' :: rest => some (.bool false, rest)
      | 'n' :: 'u' :: 'l' :: 'l' :: rest => some (.null, rest)
      | cs => (special? cs).orElse fun _ => number? cs

/-- The members of an array after its opening bracket, gathered in reverse. -/
def items? : Nat → List Value → List Char → Option (List Value × List Char)
  | 0, _, _ => none
  | fuel + 1, acc, cs =>
      match value? fuel cs with
      | none => none
      | some (v, rest) =>
          match skip rest with
          | ',' :: r => items? fuel (v :: acc) r
          | ']' :: r => some ((v :: acc).reverse, r)
          | _ => none

/-- The members of an object after its opening brace. -/
def members? : Nat → Entries → List Char → Option (Entries × List Char)
  | 0, _, _ => none
  | fuel + 1, acc, cs =>
      match skip cs with
      | '"' :: rest =>
          match stringBody? (rest.length + 1) [] rest with
          | none => none
          | some (name, r) =>
              match skip r with
              | ':' :: r =>
                  match value? fuel r with
                  | none => none
                  | some (v, r) =>
                      match skip r with
                      | ',' :: r => members? fuel (acc.set (.text name) v) r
                      | '\x7d' :: r => some (acc.set (.text name) v, r)
                      | _ => none
              | _ => none
      | _ => none

end

/-- The value that a JSON text holds, and nothing else beside it. -/
def parse? (s : String) : Option Value :=
  let cs := s.toList
  match value? (cs.length + 1) cs with
  | some (v, rest) => if (skip rest).isEmpty then some v else none
  | none => none

/-- One character of a string in JSON. -/
def escaped (c : Char) : String :=
  if c = '"' then "\\\"" else if c = '\\' then "\\\\"
  else if c.toNat < 0x20 then "\\u" ++ String.ofList (Text.hexDigits 4 c.toNat)
  else c.toString

/-- A string in JSON. -/
def string (s : String) : String := "\"" ++ s.foldl (fun out c => out ++ escaped c) "" ++ "\""

/-- A double as a number; what is no finite number goes by its name. -/
def number (x : Float) : String :=
  if x.isNaN then "NaN" else if x.isInf then if x < 0 then "-Infinity" else "Infinity"
  else Decimal.shortest x

mutual

/-- A value as JSON text. What JSON cannot say is written as its nearest: a dynamic dimension
by its name, a tuple as an array. -/
def render : Value → String
  | .null => "null"
  | .bool b => if b then "true" else "false"
  | .int n => toString n
  | .real x => number x
  | .text s => string s
  | .dim d => string d.name
  | .list items => "[" ++ ",".intercalate (renderItems items) ++ "]"
  | .tuple items => "[" ++ ",".intercalate (renderItems items) ++ "]"
  | .dict entries => "\x7b" ++ ",".intercalate (renderEntries entries) ++ "\x7d"

/-- The members of an array as JSON texts. -/
def renderItems : List Value → List String
  | [] => []
  | item :: rest => render item :: renderItems rest

/-- The members of an object as JSON texts. -/
def renderEntries : List (Value × Value) → List String
  | [] => []
  | (key, value) :: rest => (string key.plain ++ ":" ++ render value) :: renderEntries rest

end

end BlockNet.Json
