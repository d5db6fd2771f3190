import BlockNet.Proofs.Fault.Compilation
import BlockNet.Proofs.Training.Observed
import BlockNet.Session.Training

/-! # Faults of training

A trainer is set up, and goes through its epochs, with faults of the work only; but a batch may lack
what a model is to be fed, and then the model is not ready for training. -/

namespace BlockNet

/-! ## Setting up -/

theorem TrainingConfig.ofEntries_fails (entries : Entries) :
    FailsBy Fault.OfWork (ofEntries entries) := by
  have hmethod : ∀ v, FailsBy Fault.OfWork (Method.ofValue v) := by
    intro v
    rw [Method.ofValue]
    split <;> simp
  have hobjective : ∀ v, FailsBy Fault.OfWork (Objective.ofValue v) := by
    intro v
    rw [Objective.ofValue]
    split <;> simp
  have hoptional : ∀ v, FailsBy Fault.OfWork (optionalNumber v) := by
    intro v
    fun_cases optionalNumber <;> simp
  simp [ofEntries, hmethod, hobjective, hoptional]

theorem TrainingConfig.ofValue_fails (v : Value) : FailsBy Fault.OfWork (ofValue v) := by
  fun_cases ofValue <;> simp [ofEntries_fails]

namespace BatchPlan

@[simp]
theorem prototypeSizes_fails (spec : DatasetSpec) : FailsBy Fault.OfWork (prototypeSizes spec) := by
  simp [prototypeSizes]

@[simp]
theorem ofValues_fails (spec : DatasetSpec) (split batchSize seed limit : Value) :
    FailsBy Fault.OfWork (ofValues spec split batchSize seed limit) := by
  have hsplit : ∀ v, FailsBy Fault.OfWork (Split.ofValue v) := by
    intro v
    fun_cases Split.ofValue <;> simp
  cases limit <;> simp [ofValues, hsplit]

end BatchPlan

variable {α : Type} [Scalar α]

omit [Scalar α] in
/-- What keeps a trainer from being set up for a model is a fault of the work. -/
theorem Trainer.build_fails (m : Model α) (config : Value) (source validation : Option (Source α))
    (watcher : Option (Watcher α)) :
    FailsBy Fault.OfWork (build (some m) config source validation watcher).1 := by
  have hsources : ∀ c source validation,
      FailsBy Fault.OfWork (ofSources m c source validation watcher) := by
    simp [ofSources]
  unfold build
  dsimp only
  split
  · rename_i fault hconfig
    exact failsBy_error.mpr (TrainingConfig.ofValue_fails config fault hconfig)
  · exact hsources _ _ _
  · simp [sourcesOf, Dataset.load, hsources]

/-! ## Batches -/

namespace BatchPlan

variable (p : BatchPlan)

@[simp]
theorem batchCount_fails : FailsBy Fault.OfWork p.batchCount := by
  simp [batchCount, batchesPerEpoch]

theorem leftAfter_fails (size : Number) (steps : Nat) (left : Number) :
    FailsBy Fault.OfWork (leftAfter size steps left) := by
  induction steps generalizing left with
  | zero => simp [leftAfter]
  | succ steps ih => simp [leftAfter, ih]

@[simp]
theorem batchRows_fails (step : Nat) : FailsBy Fault.OfWork (p.batchRows step) := by
  rw [batchRows]
  split <;> simp [leftAfter_fails]

@[simp]
theorem batchSeed_fails (epoch : Value) (step : Nat) :
    FailsBy Fault.OfWork (p.batchSeed epoch step) := by
  rw [batchSeed]
  split <;> simp

@[simp]
theorem batchAt_fails (prototypes : Tensor α) (epoch : Value) (step : Nat) :
    FailsBy Fault.OfWork (p.batchAt prototypes epoch step) := by
  simp [batchAt, mixture]

end BatchPlan

/-- The batches of an epoch come or not by a fault of the work. -/
theorem Source.epoch_fails (s : Source α) (epoch : Value) :
    FailsBy Fault.OfWork (s.epoch epoch) := by
  cases s <;> simp [Source.epoch, BatchPlan.prototypes]

/-- So does each of them. -/
theorem Source.batchAt_fails {s : Source α} {epoch : Value} {e : Epoch α} (h : s.epoch epoch = .ok e)
    (k : Nat) : FailsBy Fault.OfWork (e.batchAt k) := by
  cases s with
  | fixed batches =>
      obtain rfl := Except.ok.inj h
      simp
  | planned plan =>
      obtain ⟨prototypes, -, h⟩ := bind_eq_ok.mp h
      obtain ⟨count, -, h⟩ := bind_eq_ok.mp h
      obtain rfl := Except.ok.inj h
      simp

/-! ## Passes -/

namespace Pass

variable (m : Model α) (inputs : Inputs α)

omit [Scalar α] in
@[simp]
theorem feed_fails (key : String) : FailsBy Fault.OfWork (feed m inputs key) := by
  have hgiven : FailsBy Fault.OfWork (given m inputs key) := by
    fun_cases given <;> simp
  have hconform : ∀ (x : Signal α) shape, FailsBy Fault.OfWork (conform x shape) := by
    intro x shape
    rw [conform]
    split <;> simp
  refine failsBy_bind.mpr ⟨hgiven, fun x _ => ?_⟩
  split <;> simp [hconform]

theorem visit_fails (mode : PassMode) (visits : List (Visit α)) (layer : Layer α) :
    DrawsFailBy Fault.OfWork (visit m inputs mode visits layer) := by
  have harguments : FailsBy Fault.OfWork (argumentsOf m inputs visits layer) := by
    refine failsBy_mapM fun key _ => ?_
    split <;> simp
  rw [visit]
  split
  · simp
  · refine drawsFailBy_lift_bind.mpr ⟨harguments, fun args _ => ?_⟩
    exact drawsFailBy_bind drawsFailBy_get fun start => by simp

theorem visitAll_fails (mode : PassMode) {layers : List (Layer α)} {visits : List (Visit α)}
    {g : Generator} {fault : Fault}
    (h : (visitAll m inputs mode layers visits g).2.1 = some fault) : fault.OfWork := by
  induction layers generalizing visits g with
  | nil => cases h
  | cons layer rest ih =>
      rw [visitAll] at h
      split at h
      · rename_i other g' hvisit
        obtain rfl := Option.some.inj h
        exact visit_fails m inputs mode visits layer g other (congrArg Prod.fst hvisit)
      · exact ih h

theorem output_fails (mode : PassMode) (g : Generator) :
    FailsBy Fault.OfWork ((m.run inputs mode g).output m) := by
  rw [output]
  split
  · rename_i fault hfault
    exact failsBy_error.mpr (visitAll_fails m _ mode hfault)
  · simp [Model.outputLayer]

end Pass

/-! ## Losses -/

@[simp]
theorem classLabels_fails (labels : Signal α) (classes : Value) :
    FailsBy Fault.OfWork (classLabels labels classes) := by
  rw [classLabels]
  split <;> simp

@[simp]
theorem scoreRows_fails (predictions : Signal α) : FailsBy Fault.OfWork (scoreRows predictions) := by
  rw [scoreRows]
  split <;> simp

namespace Objective

variable (o : Objective) (predictions labels : Signal α)

@[simp]
theorem targets_fails (rows : Tensor α) : FailsBy Fault.OfWork (targets rows labels) := by
  have honeHot : ∀ classes, FailsBy Fault.OfWork (oneHot labels classes) := by
    intro classes
    cases classes <;> simp [oneHot]
  cases labels <;> simp [targets, honeHot]

@[simp]
theorem perSample_fails : FailsBy Fault.OfWork (o.perSample predictions labels) := by
  cases o <;> simp [perSample, crossEntropies, squaredErrors, Tensor.zipWith]

@[simp]
theorem slopes_fails (reduction : Reduction) :
    FailsBy Fault.OfWork (o.slopes predictions labels reduction) := by
  cases o <;> simp [slopes, squaredErrorSlopes, Tensor.zipWith]

end Objective

@[simp]
theorem Learner.measure_fails (o : Objective) (output : Signal α) (b : Batch α) :
    FailsBy Fault.OfWork (measure o output b) := by
  simp [measure, Objective.meanLoss, accuracy]

/-! ## Epochs -/

/-- Does a fault come from behind the gate of a session, which only an initialized one opens? -/
def Fault.PastGate (fault : Fault) : Prop := fault.kind ≠ .notInitialized

theorem FailsBy.pastGate {β : Type} {x : Outcome β} (h : FailsBy Fault.OfWork x) :
    FailsBy Fault.PastGate x :=
  h.mono fun fault hwork => (fault.ofWork_iff.mp hwork).2

theorem not_failsAs {β : Type} {x : Outcome β} :
    ¬FailsAs .notInitialized x ↔ FailsBy Fault.PastGate x := by
  simp [FailsAs, FailsBy, Fault.PastGate]

namespace Learner

theorem descend_fails (l : Learner α) (r : Regime) (g : Gradient α) :
    FailsBy Fault.OfWork (l.descend r g) := by
  have hfade : FailsBy Fault.OfWork l.optimizer.fade := by
    rw [Optimizer.fade]
    split <;> simp
  have hpace : FailsBy Fault.OfWork (l.optimizer.pace r.rate) := by
    rw [Optimizer.pace]
    split <;> simp
  refine failsBy_bind.mpr ⟨?_, fun limit _ => by simp [Optimizer.step, hfade, hpace]⟩
  cases r.gradientLimit <;> simp

/-- Learning from a pass. -/
theorem learnFrom_fails (l : Learner α) (r : Regime) (b : Batch α) {p : Pass α}
    (hp : FailsBy Fault.OfWork (p.output l.model)) : FailsBy Fault.OfWork (l.learnFrom r b p).2 := by
  have hmeasured : FailsBy Fault.OfWork (do
      let output ← p.output l.model
      let totals ← measure r.objective output b
      .ok (totals, ← p.lossGradient? l.model r.objective output b.labels)) := by
    simp [hp, Pass.lossGradient?]
  rw [learnFrom]
  dsimp only
  split
  · rename_i fault hfault
    exact failsBy_error.mpr (hmeasured fault hfault)
  · simp
  · split
    · rename_i fault hfault
      exact failsBy_error.mpr (descend_fails _ _ _ fault hfault)
    · simp

end Learner

omit [Scalar α] in
/-- A batch may lack what a model is to be fed. -/
theorem Batch.feeds_fails (b : Batch α) (m : Model α) : FailsBy Fault.PastGate (b.feeds m) := by
  rw [Batch.feeds]
  split
  · simp
  · split <;> simp [Fault.PastGate, Fault.kind]

theorem Learner.learnAll_fails (r : Regime) {e : Epoch α}
    (he : ∀ k, FailsBy Fault.OfWork (e.batchAt k)) (l : Learner α) (sums : Totals α) (left k : Nat) :
    FailsBy Fault.PastGate (learnAll r e l sums left k).2 := by
  have hlearn : ∀ (l : Learner α) b, FailsBy Fault.PastGate (l.learn r b).2 := by
    intro l b
    rw [learn]
    split
    · rename_i fault hfault
      exact failsBy_error.mpr (b.feeds_fails _ fault hfault)
    · exact (learnFrom_fails _ r b (Pass.output_fails _ _ _ _)).pastGate
  induction left generalizing l sums k with
  | zero => simp [learnAll]
  | succ left ih =>
      rw [learnAll]
      split
      · rename_i fault hfault
        exact failsBy_error.mpr ((he k).pastGate fault hfault)
      · rename_i b hb
        split
        · rename_i fault hfault
          exact failsBy_error.mpr (hlearn l b fault (congrArg Prod.snd hfault))
        · exact ih _ _ _

theorem Model.evaluateFrom_fails (m : Model α) (o : Objective) {e : Epoch α}
    (he : ∀ k, FailsBy Fault.OfWork (e.batchAt k)) (a : Audience) (sums : Totals α) (left k : Nat) :
    FailsBy Fault.PastGate (m.evaluateFrom o e a sums left k).2 := by
  have hevaluate : ∀ b a, FailsBy Fault.PastGate (m.evaluate o b a).2 := by
    intro b a
    rw [evaluate]
    split
    · rename_i fault hfault
      exact failsBy_error.mpr (b.feeds_fails _ fault hfault)
    · exact FailsBy.pastGate (failsBy_bind.mpr ⟨Pass.output_fails _ _ _ _, fun output _ => by simp⟩)
  induction left generalizing a sums k with
  | zero => simp [evaluateFrom]
  | succ left ih =>
      rw [evaluateFrom]
      split
      · rename_i fault hfault
        exact failsBy_error.mpr ((he k).pastGate fault hfault)
      · rename_i b hb
        split
        · rename_i fault hfault
          exact failsBy_error.mpr (hevaluate b a fault (congrArg Prod.snd hfault))
        · exact ih _ _ _

namespace Trainer

variable (t : Trainer α)

theorem validate_fails : FailsBy Fault.PastGate t.validate.2 := by
  rw [validate]
  split
  · simp
  · rename_i source hsource
    split
    · rename_i fault hfault
      exact failsBy_error.mpr ((source.epoch_fails _).pastGate fault hfault)
    · rename_i batches hbatches
      simp [Model.evaluateAll, Model.evaluateFrom_fails, Source.batchAt_fails hbatches]

theorem learnEpoch_fails (epoch : Nat) (rate : Number) :
    FailsBy Fault.PastGate (t.learnEpoch epoch rate).2 := by
  rw [learnEpoch]
  split
  · rename_i fault hfault
    exact failsBy_error.mpr ((t.source.epoch_fails _).pastGate fault hfault)
  · rename_i batches hbatches
    simp [Learner.learnAll_fails, Source.batchAt_fails hbatches]

theorem trainEpoch_fails (epoch : Nat) : FailsBy Fault.PastGate (t.trainEpoch epoch).2 := by
  have hrate : FailsBy Fault.OfWork (t.config.learningRateAt (.whole epoch)) := by
    have hfactor : ∀ count, FailsBy Fault.OfWork (t.config.decayFactor count) := by
      intro count
      rw [TrainingConfig.decayFactor]
      split <;> simp
    simp [TrainingConfig.learningRateAt, TrainingConfig.decaysAt, hfactor]
  rw [trainEpoch]
  split
  · rename_i fault hfault
    exact failsBy_error.mpr (hrate.pastGate fault hfault)
  · rename_i rate hrate
    have hlearn := t.learnEpoch_fails epoch rate
    split
    · rename_i t' fault hfault
      exact failsBy_error.mpr (hlearn fault (congrArg Prod.snd hfault))
    · rename_i t' totals htotals
      split
      · rename_i t'' fault hfault
        exact failsBy_error.mpr (t'.validate_fails fault (congrArg Prod.snd hfault))
      · exact FailsBy.pastGate (by simp)

theorem gradientLines_fails : FailsBy Fault.OfWork t.gradientLines.2 := by
  cases hcount : t.summaryCount.sliceCount with
  | ok count =>
      obtain ⟨lines, hlines⟩ := gradientLines_ok ⟨count, hcount⟩
      simp [hlines]
  | error fault =>
      have hfails : FailsBy Fault.OfWork t.summaryCount.sliceCount := by
        generalize t.summaryCount = v
        fun_cases Value.sliceCount <;> simp
      rw [gradientLines, hcount]
      cases t.learner.watcher with
      | none => simp
      | some w => exact failsBy_error.mpr (hfails fault hcount)

/-- No epoch fails as if the session were not initialized. -/
theorem recordEpoch_fails (epoch : Nat) : FailsBy Fault.PastGate (t.recordEpoch epoch).2 := by
  have htrain := t.trainEpoch_fails epoch
  rw [recordEpoch]
  split
  · rename_i t' fault hfault
    exact failsBy_error.mpr (htrain fault (congrArg Prod.snd hfault))
  · rename_i t' metrics hmetrics
    obtain ⟨text, htext⟩ := metrics.text_toFloat
    dsimp only
    rw [htext]
    dsimp only
    split
    · rename_i t'' fault hfault
      exact failsBy_error.mpr ((gradientLines_fails _).pastGate fault (congrArg Prod.snd hfault))
    · simp

end Trainer

/-! ## Runs of a session -/

theorem throughEpochs_fails {σ : Type} {P : Fault → Prop} {stopped : σ → Bool}
    {epoch : Nat → σ → σ × Option Fault} (hepoch : ∀ e s, ∀ fault ∈ (epoch e s).2, P fault)
    {left e : Nat} {s : σ} : ∀ fault ∈ (throughEpochs stopped epoch left e s).2, P fault := by
  induction left generalizing e s with
  | zero => rintro _ ⟨⟩
  | succ left ih =>
      rw [throughEpochs]
      split
      · rintro _ ⟨⟩
      · split
        · rename_i other hfault
          rintro fault ⟨⟩
          exact hepoch e s other (congrArg Prod.snd hfault)
        · exact ih

namespace Session

variable (s : Session α) (run : Nat)

omit [Scalar α] in
theorem startRun_fails : FailsBy Fault.PastGate (s.startRun run).2 := by
  rw [startRun]
  split
  · simp [Fault.PastGate, Fault.nothingToTrain, Fault.kind]
  · rename_i t ht
    split
    · rename_i fault hfault
      rw [Trainer.start] at hfault
      split at hfault
      · obtain rfl := Except.error.inj hfault
        simp [Fault.PastGate, Fault.kind]
      · cases hfault
    · exact FailsBy.pastGate (by simp [TrainingConfig.epochCount])

theorem recordEpoch_fails (epoch : Nat) : FailsBy Fault.PastGate (s.recordEpoch run epoch).2 := by
  rw [recordEpoch]
  split
  · simp [Fault.PastGate, Fault.nothingToTrain, Fault.kind]
  · rename_i r hr
    split
    · simp [Fault.PastGate, Fault.nothingToTrain, Fault.kind]
    · rename_i m hm
      exact (r.trainer.withModel m).recordEpoch_fails epoch

omit [Scalar α] in
theorem pauseAfter_fails (epoch : Nat) : ∀ fault ∈ s.pauseAfter run epoch, fault.PastGate := by
  intro fault hfault
  obtain ⟨t, -, hfault⟩ := Option.bind_eq_some_iff.mp hfault
  rw [Trainer.pauseAfter] at hfault
  split at hfault
  · split at hfault
    · rename_i other hdelay
      obtain rfl := Option.some.inj hfault
      exact (t.config.epochDelay.toFloat_fails).pastGate _ hdelay
    · cases hfault
  · cases hfault

variable {τ : Type} {listener : Listener α τ}

theorem tellEpoch_fails (hlistener : ∀ m h, ∀ fault ∈ (listener m h).2, fault.PastGate) (epoch : Nat)
    (h : Heard α τ) : ∀ fault ∈ (tellEpoch run listener epoch h).2, fault.PastGate := by
  rw [tellEpoch]
  split
  · rename_i s' other hfault
    rintro fault ⟨⟩
    exact h.1.recordEpoch_fails run epoch other (congrArg Prod.snd hfault)
  · rename_i s' metrics hmetrics
    intro fault hfault
    rcases Option.or_eq_some_iff.mp hfault with hfault | ⟨-, hfault⟩
    · exact hlistener metrics _ fault hfault
    · exact pauseAfter_fails _ run epoch fault hfault

/-- A run that has been opened does not fail as if the session were not initialized, unless whoever
listens makes it fail so. -/
theorem train_fails {c : Nat} {config : Value} {pausing : Bool} (mind : τ)
    (hlistener : ∀ m h, ∀ fault ∈ (listener m h).2, fault.PastGate)
    (hopen : FailsBy Fault.PastGate (s.openRun c config pausing).2) :
    FailsBy Fault.PastGate (s.train c config pausing listener mind).2 := by
  rw [train]
  split
  · rename_i s' fault hfault
    exact failsBy_error.mpr (hopen fault (congrArg Prod.snd hfault))
  · rename_i opened run hopened
    split
    · rename_i s' fault hfault
      exact failsBy_error.mpr (opened.startRun_fails run fault (congrArg Prod.snd hfault))
    · split
      · rename_i fault hfault
        have hepochs := throughEpochs_fails (tellEpoch_fails run hlistener) fault
          (congrArg Prod.snd hfault)
        exact failsBy_error.mpr hepochs
      · simp

end Session

end BlockNet
