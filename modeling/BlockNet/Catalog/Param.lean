import BlockNet.Value.Reading
/-! # Parameter schemas

A schema says how a parameter's value is to be read. Reading gives the value in canonical form,
so reading the result again changes nothing. -/

namespace BlockNet

/-- The kinds of parameters. -/
inductive ParamKind where
  | integer
  | real
  | boolean
  | choice
  | string
  deriving DecidableEq, Repr

namespace ParamKind

/-- The written name of a kind. -/
def name : ParamKind → String
  | .integer => "integer"
  | .real => "float"
  | .boolean => "boolean"
  | .choice => "enum"
  | .string => "string"

/-- The kind that a value names. -/
def ofValue (v : Value) : Outcome ParamKind :=
  match [ParamKind.integer, .real, .boolean, .choice, .string].find? fun k =>
      v.equal false (.text k.name) with
  | some kind => .ok kind
  | none => .error (.unsupportedKind v)

end ParamKind

/-- The schema of one parameter. Bounds are inclusive and concern numbers only; null is no bound. -/
structure ParamSpec where
  name : Value
  kind : ParamKind
  default : Value
  options : List Value
  minimum : Value
  maximum : Value
  description : Value

namespace ParamSpec

/-- A schema, refused if it is a choice among nothing. -/
def checked (spec : ParamSpec) : Outcome ParamSpec :=
  if spec.kind = .choice ∧ spec.options.isEmpty then .error (.enumWithoutOptions spec.name)
  else .ok spec

/-- A whole number with optional bounds. -/
def integer (name : String) (default : Int) (minimum maximum : Option Int) : ParamSpec :=
  ⟨name, .integer, .int default, [], minimum.elim .null .int, maximum.elim .null .int, ""⟩

/-- A real number with optional bounds. -/
def real (name : String) (default : Float) (minimum maximum : Option Float) : ParamSpec :=
  ⟨name, .real, .real default, [], minimum.elim .null .real, maximum.elim .null .real, ""⟩

/-- A truth value. -/
def boolean (name : String) (default : Bool) : ParamSpec :=
  ⟨name, .boolean, .bool default, [], .null, .null, ""⟩

/-- A choice among texts. -/
def choice (name default : String) (options : List String) : ParamSpec :=
  ⟨name, .choice, .text default, options.map .text, .null, .null, ""⟩

/-- The schema with a description. -/
def about (spec : ParamSpec) (description : String) : ParamSpec :=
  { spec with description := description }

/-- The texts that mean true. -/
def trueTexts : List String := ["true", "1", "yes", "on"]

/-- The texts that mean false. -/
def falseTexts : List String := ["false", "0", "no", "off"]

/-- Reads a truth value; the failure is the reason. -/
def readBoolean (value : Value) : Except String Value :=
  match value with
  | .bool b => .ok (.bool b)
  | .text s =>
      let word := Text.lowered (Text.trimmed s)
      if trueTexts.contains word then .ok (.bool true)
      else if falseTexts.contains word then .ok (.bool false)
      else .error ("expected a boolean, got " ++ value.shown)
  | value => .error ("expected a boolean, got " ++ value.shown)

/-- Does a value mean an option? It does if the two are equal or have equal texts. -/
def matchesOption (value option : Value) : Bool :=
  value.equal false option || value.plain == option.plain

/-- Reads a choice: the first option that the value means. -/
def readChoice (options : List Value) (value : Value) : Except String Value :=
  match options.find? (matchesOption value) with
  | some option => .ok option
  | none =>
      .error ("expected one of " ++ (Value.list options).shown ++ ", got " ++ value.shown)

/-- Reads a text: any value but null has one. -/
def readString (value : Value) : Except String Value :=
  match value with
  | .null => .error "expected a string, got None"
  | value => .ok (.text value.plain)

/-- A text without the blanks around it; other values stay. -/
def unpadded : Value → Value
  | .text s => .text (Text.trimmed s)
  | value => value

/-- The double that a number or a numeral stands for. A truth value is no number here, and a
whole number beyond all doubles is a mishap rather than a bad parameter. -/
def readNumber (value : Value) : Outcome (Except String Float) :=
  let bad := .error ("expected a number, got " ++ value.shown)
  match value with
  | .bool _ => .ok bad
  | value =>
      match (unpadded value).toFloat with
      | .ok x => .ok (.ok x)
      | .error (.mishap .tooLarge) => mishap .tooLarge
      | .error _ => .ok bad

/-- Does a number fail a comparison with a bound? Null is no bound, and only numbers compare. -/
def fails (beyond : Number → Number → Bool) (number : Number) (bound : Value) : Outcome Bool :=
  match bound with
  | .null => .ok false
  | bound => do .ok (beyond number (← orMishap .wrongType bound.number?))

/-- A number that is checked against bounds. -/
def withinBounds (spec : ParamSpec) (number : Number) : Outcome (Except String Value) := do
  let refused := fun (relation : String) (bound : Value) =>
    Except.error ("must be " ++ relation ++ " " ++ bound.plain ++ ", got " ++ number.toValue.plain)
  if ← fails Number.lt number spec.minimum then .ok (refused ">=" spec.minimum)
  else if ← fails (fun n high => high.lt n) number spec.maximum then
    .ok (refused "<=" spec.maximum)
  else .ok (.ok number.toValue)

/-- The number that a double gives for a numeric kind: a whole number has no fraction. -/
def numberOf (kind : ParamKind) (value : Value) (x : Float) : Except String Number :=
  match kind with
  | .integer =>
      let b := Binary.ofFloat x
      if b.isWhole then .ok (.whole (b.truncated?.getD 0))
      else .error ("expected an integer, got " ++ value.shown)
  | _ => .ok (.real x)

/-- Reads a value by a schema; the inner failure is the reason why the value does not fit. -/
def read (spec : ParamSpec) (value : Value) : Outcome (Except String Value) :=
  match spec.kind with
  | .boolean => .ok (readBoolean value)
  | .choice => .ok (readChoice spec.options value)
  | .string => .ok (readString value)
  | kind => do
      match (← readNumber value) >>= numberOf kind value with
      | .ok number => spec.withinBounds number
      | .error reason => .ok (.error reason)

/-- The canonical form of a value, for a block type that is named in the fault. -/
def coerce (spec : ParamSpec) (value : Value) (blockType : String) : Outcome Value := do
  match ← spec.read value with
  | .ok v => .ok v
  | .error reason => .error (.invalidParameter blockType spec.name reason)

end ParamSpec

end BlockNet
