import BlockNet.Fault
import BlockNet.Value.Entries
import BlockNet.Decimal.Numeral
/-! # Reading values as numbers, lists and entries -/

namespace BlockNet

/-- Fails with a mishap. -/
def mishap {α : Type} (m : Mishap) : Outcome α := .error (.mishap m)

/-- The result, or a mishap if there is none. -/
def orMishap {α : Type} (m : Mishap) : Option α → Outcome α
  | some a => .ok a
  | none => mishap m

/-- Fails with the text of a requirement unless it holds. -/
def demand (holds : Bool) (text : String) : Outcome Unit :=
  if holds then .ok () else .error (.requirement text)

namespace Value

/-- The whole number that a value stands for: a real loses its fraction, a text is read as a
numeral. -/
def toInt : Value → Outcome Int
  | .bool b => .ok (if b then 1 else 0)
  | .int n => .ok n
  | .real x =>
      match Binary.ofFloat x with
      | .nan => mishap .unreadable
      | .infinite _ => mishap .tooLarge
      | b => .ok (b.truncated?.getD 0)
  | .text s => orMishap .unreadable (Numeral.whole? s)
  | _ => mishap .wrongType

/-- The double that a value stands for; a text is read as a numeral. -/
def toFloat : Value → Outcome Float
  | .bool b => .ok (if b then 1 else 0)
  | .int n => orMishap .tooLarge (nearestFloat? n)
  | .real x => .ok x
  | .text s => orMishap .unreadable (Numeral.real? s)
  | _ => mishap .wrongType

/-- The members of a value that can be gone through: the characters of a text, the keys of a
dict. -/
def toList : Value → Outcome (List Value)
  | .list items => .ok items
  | .tuple items => .ok items
  | .text s => .ok (s.toList.map fun c => .text c.toString)
  | .dict entries => .ok (Entries.keys entries)
  | _ => mishap .wrongType

/-- The entry that one member of a list of pairs spells out. -/
def toEntry (pair : Value) : Outcome (Value × Value) := do
  match ← pair.toList with
  | [key, value] => if key.hashable then .ok (key, value) else mishap .wrongType
  | _ => mishap .unreadable

/-- The entries of a dict, or those that a list of pairs spells out. -/
def toEntries : Value → Outcome Entries
  | .dict entries => .ok entries
  | v => do
      let pairs ← v.toList
      let entries ← pairs.mapM toEntry
      .ok (Entries.merge [] entries)

/-- The entries of a value that must be a dict. -/
def fields : Value → Outcome Entries
  | .dict entries => .ok entries
  | _ => mishap .wrongType

/-- The entries of a value whose members are asked for by name. -/
def members : Value → Outcome Entries
  | .dict entries => .ok entries
  | _ => mishap .absentMember

end Value

/-- The value that must stand under a name. -/
def Entries.require (entries : Entries) (name : String) : Outcome Value :=
  orMishap .absentKey (entries.get? name)

/-- The value under a name, null if there is none. -/
def Entries.getNull (entries : Entries) (name : String) : Value := (entries.get? name).getD .null

/-- The whole number that must stand under a name. -/
def Entries.integer (params : Entries) (name : String) : Outcome Int :=
  params.require name >>= Value.toInt

end BlockNet
