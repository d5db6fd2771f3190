import BlockNet.Decimal.Layout
import BlockNet.Text.Quoted
/-! # Values of the editor

Parameters, positions, labels and configurations come from an editor that does not type them.
They are kept as they came, so a graph can be written back verbatim; whoever needs a number or a
text from a value reads it with its own rule. -/

namespace BlockNet

/-- What stands for a dimension whose size is only known when data arrives: the batch axis, or
an axis that nothing is known about. -/
inductive Dynamic where
  | batch
  | unknown
  deriving DecidableEq, Repr

/-- A value as the editor holds it. The entries of a `dict` keep their order of insertion. -/
inductive Value where
  | null
  | bool (b : Bool)
  | int (n : Int)
  | real (x : Float)
  | text (s : String)
  | dim (d : Dynamic)
  | list (items : List Value)
  | tuple (items : List Value)
  | dict (entries : List (Value × Value))
  deriving Inhabited

/-- A text among values. -/
instance : Coe String Value := ⟨Value.text⟩

/-- Values under keys in order of insertion: parameters, or the entries of a `dict`. A key is a text
nearly always, but any value that can be a key may be one. -/
abbrev Entries := List (Value × Value)

/-- The written name of a dynamic dimension. -/
def Dynamic.name : Dynamic → String
  | .batch => "Batch"
  | .unknown => "Unknown"

namespace Value

mutual

/-- The text of a value with its texts in quotes, as it stands inside another value. -/
def shown : Value → String
  | .null => "None"
  | .bool b => if b then "True" else "False"
  | .int n => toString n
  | .real x => Decimal.shortest x
  | .text s => Text.quoted s
  | .dim d => d.name
  | .list items => "[" ++ ", ".intercalate (shownItems items) ++ "]"
  | .tuple [item] => "(" ++ item.shown ++ ",)"
  | .tuple items => "(" ++ ", ".intercalate (shownItems items) ++ ")"
  | .dict entries => "\x7b" ++ ", ".intercalate (shownEntries entries) ++ "\x7d"

/-- The texts of the members of a list. -/
def shownItems : List Value → List String
  | [] => []
  | item :: rest => item.shown :: shownItems rest

/-- The texts of the entries of a `dict`. -/
def shownEntries : List (Value × Value) → List String
  | [] => []
  | (key, value) :: rest => (key.shown ++ ": " ++ value.shown) :: shownEntries rest

end

/-- The text of a value on its own: a text is itself. -/
def plain : Value → String
  | .text s => s
  | v => v.shown

/-- Does the value count as true? Zeros and everything empty do not. -/
def truthy : Value → Bool
  | .null => false
  | .bool b => b
  | .int n => n != 0
  | .real x => x != 0
  | .text s => s != ""
  | .dim _ => true
  | .list items => !items.isEmpty
  | .tuple items => !items.isEmpty
  | .dict entries => !entries.isEmpty

/-- The first value if it counts as true, else the second. -/
def orElse (first second : Value) : Value := if first.truthy then first else second

mutual

/-- Can the value be a key? Lists and dicts cannot, alone or inside a tuple. -/
def hashable : Value → Bool
  | .list _ => false
  | .dict _ => false
  | .tuple items => allHashable items
  | _ => true

/-- Can every member of a list be a key? -/
def allHashable : List Value → Bool
  | [] => true
  | item :: rest => item.hashable && allHashable rest

end

end Value

end BlockNet
