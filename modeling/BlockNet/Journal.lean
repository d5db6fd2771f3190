import BlockNet.Value.Reading
/-! # The journal

Operations note what they do as entries of a level and a text. A journal passes the entries on to
at most one sink at a time; replacing the sink takes the old one away first. -/

namespace BlockNet

/-- How much an entry matters. -/
inductive Level where
  | trace
  | debug
  | info
  | success
  | warning
  | error
  | critical
  deriving DecidableEq, Repr

namespace Level

/-- The written name of a level. -/
def name : Level → String
  | .trace => "TRACE"
  | .debug => "DEBUG"
  | .info => "INFO"
  | .success => "SUCCESS"
  | .warning => "WARNING"
  | .error => "ERROR"
  | .critical => "CRITICAL"

/-- The rank of a level. -/
def rank : Level → Int
  | .trace => 5
  | .debug => 10
  | .info => 20
  | .success => 25
  | .warning => 30
  | .error => 40
  | .critical => 50

/-- All levels. -/
def all : List Level := [.trace, .debug, .info, .success, .warning, .error, .critical]

/-- The rank from which a sink takes entries: that of a named level, or a number from zero up. -/
def threshold (v : Value) : Outcome Int :=
  match v with
  | .text s => orMishap .unreadable ((all.find? (·.name == s)).map rank)
  | .int n => if n < 0 then mishap .unreadable else .ok n
  | .bool b => .ok (if b then 1 else 0)
  | _ => mishap .wrongType

end Level

/-- A note of what happened. -/
structure LogEntry where
  level : Level
  text : String
  deriving DecidableEq, Repr

/-- A note of an ordinary event. -/
def LogEntry.info (text : String) : LogEntry := ⟨.info, text⟩

/-- A note of something unexpected. -/
def LogEntry.warning (text : String) : LogEntry := ⟨.warning, text⟩

/-- What a sink has received, and the rank from which it takes entries. -/
structure Sink where
  threshold : Int
  received : List LogEntry

/-- All sinks there have been, the handle of the current one, and the sink that entries go to. The
handle stays when a sink cannot be set up, though the old sink is gone by then. -/
structure Journal where
  sinks : List Sink
  handle : Option Nat
  attached : Option Nat
  enabled : Bool

namespace Journal

/-- A journal without sinks. -/
def silent : Journal := ⟨[], none, none, false⟩

/-- Takes the current sink away. A handle without a sink behind it is a fault. -/
def detach (j : Journal) : Outcome Journal :=
  match j.handle with
  | none => .ok j
  | some n => if j.attached = some n then .ok { j with attached := none } else mishap .unreadable

/-- Sends entries from a level on to a new sink in place of the old one. -/
def configure (j : Journal) (level : Value) : Journal × Outcome Unit :=
  let j := { j with sinks := j.sinks ++ [(⟨0, []⟩ : Sink)] }
  let place := j.sinks.length - 1
  match j.detach with
  | .error fault => (j, .error fault)
  | .ok j =>
      match Level.threshold level with
      | .error fault => (j, .error fault)
      | .ok threshold =>
          ({ sinks := j.sinks.set place ⟨threshold, []⟩
             handle := some place
             attached := some place
             enabled := true }, .ok ())

/-- Takes the current sink away and drops all entries from then on. -/
def disable (j : Journal) : Journal × Outcome Unit :=
  match j.detach with
  | .error fault => (j, .error fault)
  | .ok j => ({ j with handle := none, enabled := false }, .ok ())

/-- The sink with the entries that it takes added. -/
def Sink.take (s : Sink) (entries : List LogEntry) : Sink :=
  { s with received := s.received ++ entries.filter fun e => s.threshold ≤ e.level.rank }

/-- Passes entries on. -/
def write (j : Journal) (entries : List LogEntry) : Journal :=
  match j.attached with
  | some n => if j.enabled then { j with sinks := j.sinks.modify n (Sink.take · entries) } else j
  | none => j

end Journal

end BlockNet
