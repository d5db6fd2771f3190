/-! # Blank characters, trimming and lines -/

namespace BlockNet.Text

/-- The code points of white space: controls, separators and the spaces of every width. -/
def blankCodes : List Nat :=
  [0x09, 0x0a, 0x0b, 0x0c, 0x0d, 0x1c, 0x1d, 0x1e, 0x1f, 0x20, 0x85, 0xa0, 0x1680,
   0x2000, 0x2001, 0x2002, 0x2003, 0x2004, 0x2005, 0x2006, 0x2007, 0x2008, 0x2009, 0x200a,
   0x2028, 0x2029, 0x202f, 0x205f, 0x3000]

/-- Is the character white space? -/
def isBlank (c : Char) : Bool := blankCodes.contains c.toNat

/-- Is the character one of the four controls that separate records? -/
def isSeparator (c : Char) : Bool := 0x1c ≤ c.toNat && c.toNat ≤ 0x1f

/-- The characters without those of a class at either end. -/
def trim (drops : Char → Bool) (cs : List Char) : List Char :=
  ((cs.dropWhile drops).reverse.dropWhile drops).reverse

/-- The text without the blanks at either end. -/
def trimmed (s : String) : String := String.ofList (trim isBlank s.toList)

/-- The text with its ASCII capitals made small. Words of the library are ASCII, so no other
letter can decide whether a text names one of them. -/
def lowered (s : String) : String := String.ofList (s.toList.map Char.toLower)

/-- Every blank of the core library's class is blank here. -/
theorem isBlank_of_isWhitespace {c : Char} (h : c.isWhitespace = true) : isBlank c = true := by
  simp only [Char.isWhitespace, Bool.or_eq_true, decide_eq_true_eq] at h
  rcases h with ((rfl | rfl) | rfl) | rfl <;> decide

/-! ## Lines -/

/-- The code points that end a line. -/
def lineEndCodes : List Nat :=
  [0x0a, 0x0b, 0x0c, 0x0d, 0x1c, 0x1d, 0x1e, 0x85, 0x2028, 0x2029]

/-- Does the character end a line? -/
def endsLine (c : Char) : Bool := lineEndCodes.contains c.toNat

/-- The lines of characters, the first of them continuing what is `begun`; nothing follows the
last line end. -/
def splitLines (begun : List Char) : List Char → List (List Char)
  | [] => if begun.isEmpty then [] else [begun.reverse]
  | '\r' :: '\n' :: rest => begun.reverse :: splitLines [] rest
  | c :: rest =>
      if endsLine c then begun.reverse :: splitLines [] rest else splitLines (c :: begun) rest

/-- The lines of a text without their ends. A carriage return and the line feed behind it are
one end. -/
def lines (s : String) : List String := (splitLines [] s.toList).map String.ofList

end BlockNet.Text
