import BlockNet.Dataset.Batch
import BlockNet.Model.Trace
import BlockNet.Training.Optimizer
import BlockNet.Watch.Watcher
/-! # Training on one batch

A model is run on the batch, its output is held against the labels, and the weights move against
the gradient of the loss, if the loss depends on any of them. -/

namespace BlockNet

/-- What changes while a model is trained. The audience listens to the passes of the model. -/
structure Learner (α : Type) where
  model : Model α
  optimizer : Optimizer α
  watcher : Option (Watcher α)
  generator : Generator
  audience : Audience

/-- Sums over batches: of the loss, the accuracy and the length of the gradient. -/
structure Totals (α : Type) where
  loss : α
  accuracy : α
  norm : α

namespace Totals

variable {α : Type} [Scalar α]

/-- No batch yet. -/
def zero : Totals α := ⟨0, 0, 0⟩

/-- The sums with those of another batch. -/
def add (s t : Totals α) : Totals α :=
  ⟨s.loss + t.loss, s.accuracy + t.accuracy, s.norm + t.norm⟩

/-- The means over `n` batches; without batches nothing is divided. -/
def averaged (t : Totals α) (n : Nat) : Totals α :=
  let count : α := Scalar.ofInt (max n 1)
  ⟨t.loss / count, t.accuracy / count, t.norm / count⟩

end Totals

/-- How a model is fed with a batch: labels go to the outside feeds that carry labels, and every
other feed of its own cannot be filled. -/
def Batch.feeds {α : Type} (b : Batch α) (m : Model α) : Outcome (Inputs α) :=
  if m.portInputs.isEmpty then .ok (.single b.inputs)
  else
    match m.portInputs.find? fun key => !m.labelInputs.contains key with
    | some key =>
        .error (.notReady ("Training cannot feed external input " ++ Text.quoted key))
    | none =>
        .ok (.named ((modelInput, b.inputs) :: m.portInputs.map fun key => (key, b.labels)))

/-- The gradient of the mean loss of the output of a pass, none if the loss depends on no weight
that can be trained. -/
def Pass.lossGradient? {α : Type} [Scalar α] (p : Pass α) (m : Model α) (o : Objective)
    (output labels : Signal α) : Outcome (Option (Gradient α)) :=
  if p.isTrainable m then do .ok (some (p.gradient m (← o.slopes output labels .mean)))
  else .ok none

/-- The loss of a pass against labels and its gradient, which must exist. -/
def Pass.backward {α : Type} [Scalar α] (p : Pass α) (m : Model α) (o : Objective)
    (labels : Signal α) : Outcome (α × Gradient α) := do
  let output ← p.output m
  let loss ← o.meanLoss output labels
  let g ← p.lossGradient? m o output labels
  .ok (loss, ← orMishap .badTensor g)

/-- What stays the same during an epoch. -/
structure Regime where
  objective : Objective
  rate : Number
  gradientLimit : Option Number

namespace Learner

variable {α : Type} [Scalar α]

/-- Loss and accuracy of an output. -/
def measure (o : Objective) (output : Signal α) (b : Batch α) : Outcome (Totals α) := do
  let loss ← o.meanLoss output b.labels
  let accuracy ← accuracy output b.labels
  .ok ⟨loss, accuracy, 0⟩

/-- The learner after its weights have moved against a gradient, which is clipped first. -/
def descend (l : Learner α) (r : Regime) (g : Gradient α) : Outcome (Learner α) := do
  let limit ← r.gradientLimit.mapM Number.toFloat
  let clipped := limit.elim g fun x => g.clipped (Scalar.ofFloat x)
  let (optimizer, model) ← l.optimizer.step r.rate clipped l.model
  .ok { l with optimizer, model }

/-- Learns from the output of a pass. The watcher is told of the gradient before it is clipped, and
stays so if the weights then cannot move. -/
def learnFrom (l : Learner α) (r : Regime) (b : Batch α) (p : Pass α) :
    Learner α × Outcome (Totals α) :=
  let measured : Outcome (Totals α × Option (Gradient α)) := do
    let output ← p.output l.model
    let totals ← measure r.objective output b
    .ok (totals, ← p.lossGradient? l.model r.objective output b.labels)
  match measured with
  | .error fault => (l, .error fault)
  | .ok (totals, none) => (l, .ok totals)
  | .ok (totals, some g) =>
      let l : Learner α := { l with watcher := l.watcher.map fun w => w.observe g }
      match l.descend r g with
      | .error fault => (l, .error fault)
      | .ok moved => (moved, .ok { totals with norm := g.norm })

/-- Learns from one batch. The draws of a pass stay used if it fails. -/
def learn (l : Learner α) (r : Regime) (b : Batch α) : Learner α × Outcome (Totals α) :=
  match b.feeds l.model with
  | .error fault => (l, .error fault)
  | .ok inputs =>
      let p := l.model.run inputs ⟨true, true⟩ l.generator
      { l with generator := p.generator, audience := l.audience.attend p }.learnFrom r b p

/-- Learns from the batches of an epoch from a place on, as many as are left. -/
def learnAll (r : Regime) (e : Epoch α) (l : Learner α) (sums : Totals α) :
    Nat → Nat → Learner α × Outcome (Totals α)
  | 0, _ => (l, .ok sums)
  | left + 1, k =>
      match e.batchAt k with
      | .error fault => (l, .error fault)
      | .ok b =>
          match l.learn r b with
          | (l, .error fault) => (l, .error fault)
          | (l, .ok totals) => learnAll r e l (sums.add totals) left (k + 1)

end Learner

namespace Model

variable {α : Type} [Scalar α]

/-- Loss and accuracy of a model on one batch, without any change to it. Who listens hears of the
pass. -/
def evaluate (m : Model α) (o : Objective) (b : Batch α) (a : Audience) :
    Audience × Outcome (Totals α) :=
  match b.feeds m with
  | .error fault => (a, .error fault)
  | .ok inputs =>
      let p := m.run inputs ⟨false, false⟩ (Generator.seeded 0)
      (a.attend p, do Learner.measure o (← p.output m) b)

/-- Adds up loss and accuracy of a model on the batches of an epoch from a place on, as many as are
left. -/
def evaluateFrom (m : Model α) (o : Objective) (e : Epoch α) (a : Audience) (sums : Totals α) :
    Nat → Nat → Audience × Outcome (Totals α)
  | 0, _ => (a, .ok sums)
  | left + 1, k =>
      match e.batchAt k with
      | .error fault => (a, .error fault)
      | .ok b =>
          match m.evaluate o b a with
          | (a, .error fault) => (a, .error fault)
          | (a, .ok totals) => evaluateFrom m o e a (sums.add totals) left (k + 1)

/-- Mean loss and accuracy of a model on the batches of an epoch; none without batches. -/
def evaluateAll (m : Model α) (o : Objective) (e : Epoch α) (a : Audience) :
    Audience × Outcome (Option (Totals α)) :=
  let (a, totals) := m.evaluateFrom o e a Totals.zero e.count 0
  (a, totals.map fun totals => if e.count = 0 then none else some (totals.averaged e.count))

end Model

end BlockNet
