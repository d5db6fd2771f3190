import BlockNet.Value.Number
/-! # Entries

Values under keys, in the order in which the keys came first. Storing under a key that is there
changes the value and keeps the place. -/

namespace BlockNet.Entries

/-- The value under a key. -/
def get? (entries : Entries) (key : Value) : Option Value :=
  (entries.find? (·.1.sameKey key)).map (·.2)

/-- Is there a value under the key? -/
def has (entries : Entries) (key : Value) : Bool := entries.any (·.1.sameKey key)

/-- Stores a value: in place if the key is there, else at the end. -/
def set (entries : Entries) (key value : Value) : Entries :=
  match entries with
  | [] => [(key, value)]
  | (k, v) :: rest => if k.sameKey key then (k, value) :: rest else (k, v) :: set rest key value

/-- Stores every entry of the second list in the first. -/
def merge (entries more : Entries) : Entries :=
  more.foldl (fun es e => es.set e.1 e.2) entries

/-- The entries without a key. -/
def erase (entries : Entries) (key : Value) : Entries := entries.filter (!·.1.sameKey key)

/-- The keys in order. -/
def keys (entries : Entries) : List Value := entries.map (·.1)

/-- Can the entries be put in the order of their keys? -/
def sortable (entries : Entries) : Bool :=
  match entries with
  | [] => true
  | (key, _) :: rest => rest.all (fun e => key.comparable e.1) && sortable rest

/-- The value that was stored under a name is found. -/
theorem get?_set_self (entries : Entries) (name : String) (value : Value) :
    (entries.set name value).get? name = some value := by
  induction entries with
  | nil => simp [set, get?, Value.sameKey]
  | cons e rest ih =>
    by_cases h : e.1.sameKey name = true
    · simp [set, get?, h]
    · simpa [set, get?, h] using ih

/-- Storing a value under a name changes what stands under no other name. -/
theorem get?_set_of_ne (entries : Entries) {name other : String} (value : Value)
    (h : other ≠ name) : (entries.set name value).get? other = entries.get? other := by
  induction entries with
  | nil => simp [set, get?, Value.sameKey, Ne.symm h]
  | cons e rest ih =>
    by_cases he : e.1.sameKey name = true
    · have : (e.1.sameKey other) = false := by
        simp [Value.sameKey_text.1 he, Value.sameKey, Ne.symm h]
      simp [set, get?, he, this]
    · by_cases ho : e.1.sameKey other = true
      · simp [set, get?, he, ho]
      · simpa [set, get?, he, ho] using ih

end BlockNet.Entries
