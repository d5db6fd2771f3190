import BlockNet.Value.Basic
/-! # Faults

Every way an operation can fail is a cause of its own. A cause has a kind, by which callers
tell failures apart, and most have a message. -/

namespace BlockNet

/-- Stable identifiers of the problems that the engine reports. -/
inductive ErrorCode where
  | unknownBlockType
  | portNotFound
  | dtypeMismatch
  | rankMismatch
  | dimensionMismatch
  | cycleDetected
  | noComputationalLayers
  | modelNotReady
  | runtimeNotInitialized
  | invalidParameter
  | unresolvedShape
  deriving DecidableEq, Repr

/-- The written form of an error code. -/
def ErrorCode.text : ErrorCode → String
  | .unknownBlockType => "UnknownBlockType"
  | .portNotFound => "PortNotFound"
  | .dtypeMismatch => "DtypeMismatch"
  | .rankMismatch => "RankMismatch"
  | .dimensionMismatch => "DimensionMismatch"
  | .cycleDetected => "CycleDetected"
  | .noComputationalLayers => "NoComputationalLayers"
  | .modelNotReady => "ModelNotReady"
  | .runtimeNotInitialized => "RuntimeNotInitialized"
  | .invalidParameter => "InvalidParameter"
  | .unresolvedShape => "UnresolvedShape"

/-- What goes wrong when a value is used as something that it is not. A mishap says no more
than its kind. -/
inductive Mishap where
  | absentKey
  | wrongType
  | unreadable
  | tooLarge
  | zeroDivisor
  | absentMember
  | badIndex
  | badTensor
  | unsupported
  | interrupted
  deriving DecidableEq, Repr

/-- The cause of a failure. -/
inductive Fault where
  | general (message : String)
  | unknownBlockType (blockType : String)
  | invalidParameter (blockType : String) (name : Value) (reason : String)
  | noLayers (message : String)
  | notReady (message : String)
  | notInitialized (message : String)
  | unresolvedShape (kind reason : String)
  | flagDimension (b : Bool)
  | negativeDimension (n : Int)
  | unsupportedDtype (dtype : Value)
  | unsupportedKind (kind : Value)
  | enumWithoutOptions (name : Value)
  | duplicateBlockType (blockType : String)
  | duplicateNode (id : String)
  | unplacedEnds
  | unsupportedActivation (name : Value)
  | weightShape (name : String) (expected found : List Nat)
  | labelRange (classes : Value) (low high : Int)
  | unsupportedReduction (name : Value)
  | datasetRequirement (name : Value) (requirement : String)
  | unknownSplit (split : Value)
  | requirement (text : String)
  | unsupportedOptimizer (name : Value)
  | unsupportedLoss (name : Value)
  | templateCategory (name : Value)
  | templateDifficulty (name : Value)
  | unknownNode (id : Value)
  | unknownConnection (id : Value)
  | portNotFound (port blockType : String)
  | unknownLayer (id : Value)
  | missingWeight (name : String)
  | missingInput (key : String) (secondary : Bool)
  | unknownLoss (name : Value)
  | unknownTemplate (id : Value)
  | noKernel (kind : String)
  | alreadyRunning
  | mishap (m : Mishap)

/-- The result of an operation that can fail. -/
abbrev Outcome (α : Type) := Except Fault α

/-- The kinds of failures that callers tell apart. -/
inductive FaultKind where
  | general
  | unknownBlockType
  | invalidParameter
  | noLayers
  | notReady
  | notInitialized
  | unresolvedShape
  | value
  | type
  | key
  | state
  | unsupported
  | index
  | overflow
  | zeroDivision
  | member
  | arithmetic
  deriving DecidableEq, Repr

/-- The kind of a mishap. -/
def Mishap.kind : Mishap → FaultKind
  | .absentKey => .key
  | .wrongType => .type
  | .unreadable => .value
  | .tooLarge => .overflow
  | .zeroDivisor => .zeroDivision
  | .absentMember => .member
  | .badIndex => .index
  | .badTensor => .state
  | .unsupported => .unsupported
  | .interrupted => .arithmetic

/-- The kind of a fault. -/
def Fault.kind : Fault → FaultKind
  | .general _ => .general
  | .unknownBlockType _ => .unknownBlockType
  | .invalidParameter .. => .invalidParameter
  | .noLayers _ => .noLayers
  | .notReady _ => .notReady
  | .notInitialized _ => .notInitialized
  | .unresolvedShape .. => .unresolvedShape
  | .flagDimension _ => .type
  | .unknownNode _ | .unknownConnection _ | .portNotFound .. | .unknownLayer _
  | .missingWeight _ | .missingInput .. | .unknownLoss _ | .unknownTemplate _ => .key
  | .noKernel _ | .alreadyRunning => .state
  | .mishap m => m.kind
  | .negativeDimension _ | .unsupportedDtype _ | .unsupportedKind _ | .enumWithoutOptions _
  | .duplicateBlockType _ | .duplicateNode _ | .unplacedEnds | .unsupportedActivation _
  | .weightShape .. | .labelRange .. | .unsupportedReduction _ | .datasetRequirement ..
  | .unknownSplit _ | .requirement _ | .unsupportedOptimizer _ | .unsupportedLoss _
  | .templateCategory _ | .templateDifficulty _ => .value

/-- The code of a fault of the engine itself. -/
def Fault.code? : Fault → Option ErrorCode
  | .unknownBlockType _ => some .unknownBlockType
  | .invalidParameter .. => some .invalidParameter
  | .noLayers _ => some .noComputationalLayers
  | .notReady _ => some .modelNotReady
  | .notInitialized _ => some .runtimeNotInitialized
  | .unresolvedShape .. => some .unresolvedShape
  | _ => none

/-- Sizes between parentheses, a single one with a comma behind it. -/
def sizesText (dims : List Nat) : String := (Value.tuple (dims.map fun d : Nat => .int d)).shown

/-- The message of a fault; a mishap has none. -/
def Fault.message? : Fault → Option String
  | .general message => message
  | .unknownBlockType blockType => "Unknown block type: " ++ blockType
  | .invalidParameter blockType name reason =>
      "Invalid parameter " ++ name.shown ++ " for " ++ blockType ++ ": " ++ reason
  | .noLayers message => message
  | .notReady message => message
  | .notInitialized message => message
  | .unresolvedShape kind reason => kind ++ ": " ++ reason
  | .flagDimension b =>
      "Dimension must be an int or a dynamic sentinel, got " ++ (Value.bool b).shown
  | .negativeDimension n => "Dimension must be non-negative, got " ++ toString n
  | .unsupportedDtype dtype =>
      "Unsupported dtype " ++ dtype.shown ++ "; expected one of ('bool', 'int32', 'float32')"
  | .unsupportedKind kind => "Unsupported parameter kind " ++ kind.shown
  | .enumWithoutOptions name => "Enum parameter " ++ name.shown ++ " needs options"
  | .duplicateBlockType blockType => "Duplicate block type " ++ Text.quoted blockType
  | .duplicateNode id => "Duplicate node id " ++ Text.quoted id
  | .unplacedEnds => "Both nodes must be added to the graph before connecting."
  | .unsupportedActivation name => "Unsupported activation " ++ name.shown
  | .weightShape name expected found =>
      "Weight " ++ Text.quoted name ++ " expects " ++ sizesText expected ++ ", got "
        ++ sizesText found
  | .labelRange classes low high =>
      "Labels must lie in [0, " ++ classes.plain ++ "); got range [" ++ toString low ++ ", "
        ++ toString high ++ "]. Is the output layer wide enough?"
  | .unsupportedReduction name => "Unsupported reduction " ++ name.shown
  | .datasetRequirement name rule => "Dataset " ++ name.shown ++ " " ++ rule
  | .unknownSplit split => "split must be one of ('train', 'val'), got " ++ split.shown
  | .requirement text => text
  | .unsupportedOptimizer name => "optimizer must be one of ('sgd', 'adam'), got " ++ name.shown
  | .unsupportedLoss name => "Unsupported loss function " ++ name.shown
  | .templateCategory name => "Unknown template category " ++ name.shown
  | .templateDifficulty name => "Unknown template difficulty " ++ name.shown
  | .unknownNode id => "No node with id " ++ id.shown
  | .unknownConnection id => "No connection with id " ++ id.shown
  | .portNotFound port blockType => "Port not found: " ++ port ++ " on " ++ blockType
  | .unknownLayer id => "No compiled layer for node " ++ id.shown
  | .missingWeight name => "Missing weight " ++ Text.quoted name
  | .missingInput key secondary =>
      "No input provided for " ++ Text.quoted key
        ++ if secondary then "; secondary port feeds need an explicit entry" else ""
  | .unknownLoss name =>
      "Unknown loss function " ++ name.shown ++ "; expected one of ['crossEntropy', 'mse']"
  | .unknownTemplate id => "No template with id " ++ id.shown
  | .noKernel kind => "No kernel registered for layer kind " ++ Text.quoted kind
  | .alreadyRunning => "Trainer is already running"
  | .mishap _ => none

/-- The graph has no node that becomes a layer. -/
def Fault.noValidLayers : Fault := .noLayers "No valid layers found in the model"

/-- A run needs a model and a dataset. -/
def Fault.nothingToTrain : Fault := .notReady "Model or training data not available"

/-- The session has not been initialized. -/
def Fault.sessionClosed : Fault := .notInitialized "Runtime not initialized"

/-- The fault of one of the engine's own kinds that arguments spell out; none if they are too few
or too many for the kind. -/
def Fault.ofArguments? : FaultKind → List Value → Option Fault
  | .general, [] => some (.general "")
  | .general, [message] => some (.general message.plain)
  | .general, several => some (.general (Value.tuple several).shown)
  | .unknownBlockType, [blockType] => some (.unknownBlockType blockType.plain)
  | .invalidParameter, [blockType, name, reason] =>
      some (.invalidParameter blockType.plain name reason.plain)
  | .noLayers, [] => some .noValidLayers
  | .noLayers, [message] => some (.noLayers message.plain)
  | .notReady, [] => some .nothingToTrain
  | .notReady, [message] => some (.notReady message.plain)
  | .notInitialized, [] => some .sessionClosed
  | .notInitialized, [message] => some (.notInitialized message.plain)
  | .unresolvedShape, [kind, reason] => some (.unresolvedShape kind.plain reason.plain)
  | _, _ => none

/-- The names under which a fault of a kind keeps its arguments. -/
def FaultKind.fieldNames : FaultKind → List String
  | .unknownBlockType => ["block_type"]
  | .invalidParameter => ["block_type", "name", "reason"]
  | .unresolvedShape => ["kind", "reason"]
  | _ => []

end BlockNet
