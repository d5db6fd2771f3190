import BlockNet.Model.Gradient
import BlockNet.Watch.Ranking
import BlockNet.Watch.Summary
/-! # Watching gradients

A watcher adds up what the weights of a model report, layer by layer and weight by weight, until
the next summary. A layer has gone a step further when each of its weights has reported. -/

namespace BlockNet

/-- Running sums over the gradients reported. -/
structure Tally (α : Type) where
  steps : Nat
  squares : α
  largest : α
  zeros : Nat
  entries : Nat

namespace Tally

variable {α : Type} [Scalar α]

/-- Nothing reported yet. -/
def empty : Tally α := ⟨0, 0, 0, 0, 0⟩

/-- The largest magnitude of a tensor with entries. -/
def peak (g : Tensor α) : α :=
  Scalar.largest (g.size - 1) fun i => Scalar.magnitude (g.entry i)

/-- The tally with another gradient added. -/
def add (t : Tally α) (g : Tensor α) : Tally α :=
  if g.size = 0 then t
  else
    let peak := peak g
    { t with
      squares := t.squares + Scalar.sum g.size fun i => Scalar.square (g.entry i)
      largest := if Scalar.less t.largest peak then peak else t.largest
      zeros := t.zeros + g.entries.countP (Scalar.same 0)
      entries := t.entries + g.size }

end Tally

/-- A layer or a single weight that is watched: the names of the weights that report to it, how
many of them have reported in the running step, and the tally. -/
structure Watched (α : Type) where
  name : String
  kind : String
  weights : List String
  reported : Nat
  tally : Tally α

namespace Watched

variable {α : Type} [Scalar α]

/-- Takes the report of one weight. -/
def report (w : Watched α) (key : String) (g : Tensor α) : Watched α :=
  if !w.weights.contains key then w
  else
    let tally := w.tally.add g
    if w.reported + 1 = w.weights.length then
      { w with reported := 0, tally := { tally with steps := tally.steps + 1 } }
    else { w with reported := w.reported + 1, tally }

/-- The sum of the squares of the weights as they stand in a model. -/
def weightSquares (w : Watched α) (m : Model α) : α :=
  let state := m.state.filter fun e => w.weights.contains e.1
  Gradient.squareSum state

/-- What was seen, as a record. -/
def record (w : Watched α) (m : Model α) : GradientRecord α :=
  { name := w.name
    kind := w.kind
    steps := .int w.tally.steps
    norm := Scalar.sqrt (w.tally.squares / Scalar.ofInt (max w.tally.steps 1))
    largest := w.tally.largest
    zeroShare := Scalar.ofInt w.tally.zeros / Scalar.ofInt (max w.tally.entries 1)
    weightNorm := Scalar.sqrt (w.weightSquares m) }

/-- The same layer or weight with nothing reported yet. -/
def reset (w : Watched α) : Watched α := { w with reported := 0, tally := Tally.empty }

end Watched

/-- What is watched in a model. A detached watcher gets no more reports. -/
structure Watcher (α : Type) where
  layers : List (Watched α)
  weights : List (Watched α)
  tracksWeights : Bool
  attached : Bool

namespace Watcher

variable {α : Type} [Scalar α]

/-- The names of the weights of a layer that can be trained. -/
def trainableKeys (l : Layer α) : List String :=
  (l.weights.filter (·.trainable)).map l.weightKey

/-- A watcher of the weights of a model that can be trained. -/
def ofModel (m : Model α) (tracksWeights : Bool) : Watcher α :=
  let watched := fun (l : Layer α) name keys => (⟨name, l.kind, keys, 0, Tally.empty⟩ : Watched α)
  let layers := m.layers.filter fun l => !(trainableKeys l).isEmpty
  { layers := layers.map fun l => watched l l.id (trainableKeys l)
    weights := layers.flatMap fun l => (trainableKeys l).map fun key => watched l key [key]
    tracksWeights
    attached := true }

/-- Takes the report of one weight. -/
def report (w : Watcher α) (key : String) (g : Tensor α) : Watcher α :=
  if !w.attached then w
  else
    { w with
      layers := w.layers.map fun l => l.report key g
      weights := if w.tracksWeights then w.weights.map fun v => v.report key g else w.weights }

/-- Takes the reports of all weights that a gradient names. -/
def observe (w : Watcher α) (g : Gradient α) : Watcher α :=
  g.foldl (fun w (key, slope) => w.report key slope) w

/-- The watcher after the model has let go of it. -/
def close (w : Watcher α) : Watcher α := { w with attached := false }

/-- Forgets all reports. -/
def reset (w : Watcher α) : Watcher α :=
  { w with layers := w.layers.map Watched.reset, weights := w.weights.map Watched.reset }

/-- The first records of what has reported anything, the longest gradients first. -/
def collect (watched : List (Watched α)) (m : Model α) (count : Option Int) :
    List (GradientRecord α) :=
  let records := (watched.filter fun w => w.tally.entries != 0).map fun w => w.record m
  upTo count (Ranking.descending (fun a b => Scalar.less a.norm b.norm) records)

/-- A summary since the last one, none if nothing was reported, and the watcher afterwards. -/
def popSummary (w : Watcher α) (m : Model α) (count : Option Int) :
    Option (GradientSummary α) × Watcher α :=
  let layers := collect w.layers m count
  let weights := if w.tracksWeights then collect w.weights m count else []
  (if layers.isEmpty && weights.isEmpty then none else some ⟨layers, weights⟩, w.reset)

end Watcher

end BlockNet
