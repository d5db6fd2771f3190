import BlockNet.Model.Pass
/-! # Traces

A trace records what the layers give in every pass while it is active. All traces of a model and
its other listeners form an audience, which hears every event in the order in which its members
joined. -/

namespace BlockNet

/-- One layer output in a trace; passes are numbered from one. -/
structure LayerRecord where
  pass : Nat
  node : String
  kind : String
  dims : List Int
  elementType : Value

/-- A record of passes, and how often each node has given something. -/
structure Trace where
  active : Bool
  records : List LayerRecord
  counts : List (String × Nat)
  passes : Nat
  trainingPasses : Nat

namespace Trace

/-- A trace that has not been started. -/
def fresh : Trace := ⟨false, [], [], 0, 0⟩

/-- Starts recording from nothing, unless the trace is active. -/
def start (t : Trace) : Trace := if t.active then t else ⟨true, [], [], 0, 0⟩

/-- Ends recording and keeps the record. -/
def stop (t : Trace) : Trace := { t with active := false }

/-- Counts a node once more, a new one after the others. -/
def countUp (node : String) : List (String × Nat) → List (String × Nat)
  | [] => [(node, 1)]
  | (other, n) :: rest =>
      if other = node then (other, n + 1) :: rest else (other, n) :: countUp node rest

/-- Records an event. -/
def hear (t : Trace) (e : Event) : Trace :=
  match e with
  | .passStart training =>
      { t with
        passes := t.passes + 1
        trainingPasses := t.trainingPasses + if training then 1 else 0 }
  | .layerOutput node kind dims elementType =>
      { t with
        records := t.records ++ [⟨t.passes, node, kind, dims, elementType⟩]
        counts := countUp node t.counts }
  | .passEnd _ => t

/-- The number of the pass that a value stands for, null being the last one. -/
def numbered (t : Trace) : Value → Value
  | .null => .int t.passes
  | pass => pass

/-- The axes of what each node gave in a pass. -/
def shapes (t : Trace) (pass : Value) : List (String × List Int) :=
  let records := t.records.filter fun r => (Value.int r.pass).equal false (t.numbered pass)
  ((records.map (·.node)).eraseDups).filterMap fun node =>
    (records.reverse.find? (·.node == node)).map fun r => (node, r.dims)

end Trace

/-- Who listens: one of the traces, or another listener of a number. -/
inductive Listener where
  | trace (index : Nat)
  | other (number : Nat)
  deriving DecidableEq, Repr

/-- The traces of a model, and who listens, first who joined first. -/
structure Audience where
  traces : List Trace
  listeners : List Listener

namespace Audience

/-- A number of traces, none of them listening. -/
def silent (count : Nat) : Audience := ⟨List.replicate count Trace.fresh, []⟩

/-- Does anyone listen? -/
def isListening (a : Audience) : Bool := !a.listeners.isEmpty

/-- A listener joins, unless it listens already. -/
def join (a : Audience) (l : Listener) : Audience :=
  if a.listeners.contains l then a else { a with listeners := a.listeners ++ [l] }

/-- A listener leaves. -/
def leave (a : Audience) (l : Listener) : Audience := { a with listeners := a.listeners.erase l }

/-- The trace of an index. -/
def trace (a : Audience) (index : Nat) : Trace := a.traces.getD index Trace.fresh

/-- Starts a trace, which then listens. -/
def start (a : Audience) (index : Nat) : Audience :=
  if (a.trace index).active then a
  else ({ a with traces := a.traces.modify index Trace.start }).join (.trace index)

/-- Stops a trace, which then listens no longer. -/
def stop (a : Audience) (index : Nat) : Audience :=
  if (a.trace index).active then
    ({ a with traces := a.traces.modify index Trace.stop }).leave (.trace index)
  else a

/-- One listener hears an event. -/
def tell (e : Event) (a : Audience) (l : Listener) : Audience :=
  match l with
  | .trace index => { a with traces := a.traces.modify index (·.hear e) }
  | .other _ => a

/-- All listeners hear an event. -/
def hear (a : Audience) (e : Event) : Audience := a.listeners.foldl (tell e) a

/-- All listeners hear of a pass. -/
def attend {α : Type} (a : Audience) (p : Pass α) : Audience := p.events.foldl hear a

/-- All listeners hear the event that the entries of a value spell out. Entries that spell none
concern nobody, and a fault in them only shows where a trace reads them. -/
def hearValue (a : Audience) (v : Value) : Outcome Audience :=
  let read := a.listeners.any fun l => match l with
    | .trace _ => true
    | .other _ => false
  if read then do
    match ← Event.ofEntries (← v.members) with
    | some e => .ok (a.hear e)
    | none => .ok a
  else .ok a

end Audience

end BlockNet
