import BlockNet.Text.Printable
/-! # Quoted texts

A text is quoted with single quotes unless it holds a single quote and no double one. Inside,
the quote and the backslash are escaped, and so is every character that is not printable. -/

namespace BlockNet.Text

/-- The last `width` hexadecimal digits of a number, in small letters. -/
def hexDigits : Nat → Nat → List Char
  | 0, _ => []
  | width + 1, n => hexDigits width (n / 16) ++ [Nat.digitChar (n % 16)]

/-- One character inside quotes. -/
def quoteChar (quote c : Char) : List Char :=
  if c = quote || c = '\\' then ['\\', c]
  else if c = '\t' then ['\\', 't']
  else if c = '\n' then ['\\', 'n']
  else if c = '\r' then ['\\', 'r']
  else if isPrintable c then [c]
  else if c.toNat < 0x100 then '\\' :: 'x' :: hexDigits 2 c.toNat
  else if c.toNat < 0x10000 then '\\' :: 'u' :: hexDigits 4 c.toNat
  else '\\' :: 'U' :: hexDigits 8 c.toNat

/-- The quote that surrounds a text. -/
def quoteOf (cs : List Char) : Char :=
  if cs.contains '\'' && !cs.contains '"' then '"' else '\''

/-- A text in quotes. -/
def quoted (s : String) : String :=
  let quote := quoteOf s.toList
  String.ofList (quote :: s.toList.flatMap (quoteChar quote) ++ [quote])

/-- A text between quotes never holds its own quote bare: a plain character stands for itself. -/
theorem quoteChar_of_printable {quote c : Char} (h : isPrintable c = true) (hq : c ≠ quote)
    (hb : c ≠ '\\') : quoteChar quote c = [c] := by
  have ht : c ≠ '\t' := by rintro rfl; exact absurd h (by decide)
  have hn : c ≠ '\n' := by rintro rfl; exact absurd h (by decide)
  have hr : c ≠ '\r' := by rintro rfl; exact absurd h (by decide)
  simp [quoteChar, hq, hb, ht, hn, hr, h]

end BlockNet.Text
