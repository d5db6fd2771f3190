import BlockNet.Proofs.Outcome
import BlockNet.Proofs.Value.Order
import BlockNet.Training.Config

/-! # What an accepted configuration holds

The numbers of a configuration are checked one after the other. Some checks ask whether a number is
within its bounds and some whether it is beyond them, and a NaN is neither. So an accepted
configuration is in range but for the fields of the second kind that were given a NaN. -/

namespace BlockNet

/-- Is the value a NaN? -/
def Value.isNaN (v : Value) : Bool := v.number?.any Number.isNaN

theorem Value.number?_eq_some {v : Value} {n : Number} : v.number? = some n ↔ v = n.toValue := by
  cases v <;> cases n <;> simp [number?, Number.toValue]

@[simp]
theorem Number.isNaN_toValue (n : Number) : n.toValue.isNaN = n.isNaN := by cases n <;> rfl

namespace TrainingConfig

variable {entries : Entries} {c : TrainingConfig}

/-! ## Which configurations are accepted -/

/-- What the checks let pass, in their order. -/
structure Passes (c : TrainingConfig) : Prop where
  epochs : c.epochs.lt (.whole 1) = false
  batchSize : c.batchSize.lt (.whole 1) = false
  learningRate : Number.lt (.whole 0) c.learningRate = true
  batchesPerEpoch : ∀ n ∈ c.batchesPerEpoch, n.lt (.whole 1) = false
  validationBatches : c.validationBatches.lt (.whole 0) = false
  momentum : c.momentum.lt (.whole 0) = false
  decay : Number.lt (.whole 0) c.decay = true ∧ c.decay.le (.whole 1) = true
  decayEvery : c.decayEvery.lt (.whole 1) = false
  gradientLimit : ∀ x ∈ c.gradientLimit, x.le (.whole 0) = false
  epochDelay : c.epochDelay.lt (.whole 0) = false

/-- The fields hold what entries give to them. The optimizer and the loss are read as names. -/
structure Follows (c : TrainingConfig) (entries : Entries) : Prop where
  optimizer : Method.ofValue (given entries .optimizer) = .ok c.optimizer
  loss : Objective.ofValue (given entries .loss) = .ok c.loss
  others : ∀ f, f ≠ .optimizer → f ≠ .loss → given entries f = c.get f

theorem optionalNumber_eq_ok {v : Value} {n : Option Number} :
    optionalNumber v = .ok n ↔ v = n.elim .null Number.toValue := by
  cases v with
  | null => rcases n with _ | _ | _ | _ <;> simp [optionalNumber, Number.toValue]
  | _ => cases n <;> simp [optionalNumber, map_eq_ok, orMishap_eq_ok, Value.number?_eq_some]

/-- Entries give a configuration just when it holds what they give and passes the checks. -/
theorem ofEntries_eq_ok : ofEntries entries = .ok c ↔ c.Follows entries ∧ c.Passes := by
  simp only [ofEntries, bind_eq_ok, orMishap_eq_ok, demand_eq_ok, Value.number?_eq_some,
    optionalNumber_eq_ok, Except.ok.injEq, exists_const, Bool.not_eq_true', Bool.and_eq_true,
    Option.all_eq_true]
  constructor
  · rintro ⟨epochs, hepochs, hepochs', size, hsize, hsize', rate, hrate, hrate', optimizer,
      hoptimizer, loss, hloss, batches, hbatches, hbatches', validation, hvalidation, hvalidation',
      momentum, hmomentum, hmomentum', decay, hdecay, hdecay', every, hevery, hevery', limit, hlimit,
      hlimit', delay, hdelay, hdelay', rfl⟩
    refine ⟨⟨hoptimizer, hloss, fun f hf hf' => ?_⟩, hepochs', hsize', hrate', hbatches',
      hvalidation', hmomentum', hdecay', hevery', hlimit', hdelay'⟩
    cases f with
    | epochs => exact hepochs
    | batchSize => exact hsize
    | learningRate => exact hrate
    | optimizer => exact absurd rfl hf
    | loss => exact absurd rfl hf'
    | batchesPerEpoch => exact hbatches
    | validationBatches => exact hvalidation
    | momentum => exact hmomentum
    | decay => exact hdecay
    | decayEvery => exact hevery
    | gradientLimit => exact hlimit
    | epochDelay => exact hdelay
    | seed => rfl
  · rintro ⟨⟨hoptimizer, hloss, hothers⟩, h⟩
    exact ⟨c.epochs, hothers .epochs nofun nofun, h.epochs, c.batchSize,
      hothers .batchSize nofun nofun, h.batchSize, c.learningRate, hothers .learningRate nofun nofun,
      h.learningRate, c.optimizer, hoptimizer, c.loss, hloss, c.batchesPerEpoch,
      hothers .batchesPerEpoch nofun nofun, h.batchesPerEpoch, c.validationBatches,
      hothers .validationBatches nofun nofun, h.validationBatches, c.momentum,
      hothers .momentum nofun nofun, h.momentum, c.decay, hothers .decay nofun nofun, h.decay,
      c.decayEvery, hothers .decayEvery nofun nofun, h.decayEvery, c.gradientLimit,
      hothers .gradientLimit nofun nofun, h.gradientLimit, c.epochDelay,
      hothers .epochDelay nofun nofun, h.epochDelay, by rw [hothers .seed nofun nofun]; rfl⟩

/-! ## Ranges -/

/-- Every field is in its range, and the names are those that methods and objectives are written by. -/
structure InRange (c : TrainingConfig) : Prop where
  epochs : Number.le (.whole 1) c.epochs = true
  batchSize : Number.le (.whole 1) c.batchSize = true
  learningRate : Number.lt (.whole 0) c.learningRate = true
  batchesPerEpoch : ∀ n ∈ c.batchesPerEpoch, Number.le (.whole 1) n = true
  validationBatches : Number.le (.whole 0) c.validationBatches = true
  momentum : Number.le (.whole 0) c.momentum = true
  decay : Number.lt (.whole 0) c.decay = true ∧ c.decay.le (.whole 1) = true
  decayEvery : Number.le (.whole 1) c.decayEvery = true
  gradientLimit : ∀ x ∈ c.gradientLimit, Number.lt (.whole 0) x = true
  epochDelay : Number.le (.whole 0) c.epochDelay = true
  optimizer : c.get .optimizer = .text "sgd" ∨ c.get .optimizer = .text "adam"
  loss : c.get .loss = .text "crossEntropy" ∨ c.get .loss = .text "mse"

/-- The fields whose check asks whether a number is beyond its bound. That of the learning rate and
that of its decay ask whether it is within. -/
def Field.heldFromBeyond : List Field :=
  [.epochs, .batchSize, .batchesPerEpoch, .validationBatches, .momentum, .decayEvery, .gradientLimit,
    .epochDelay]

theorem get_optimizer (c : TrainingConfig) :
    c.get .optimizer = .text "sgd" ∨ c.get .optimizer = .text "adam" := by
  rw [get]
  cases c.optimizer with
  | sgd => exact .inl rfl
  | adam => exact .inr rfl

theorem get_loss (c : TrainingConfig) :
    c.get .loss = .text "crossEntropy" ∨ c.get .loss = .text "mse" := by
  rw [get]
  cases c.loss with
  | crossEntropy => exact .inl rfl
  | squaredError => exact .inr rfl

/-- A missing number is no NaN. -/
theorem isNaN_optional {n : Option Number} :
    (n.elim .null Number.toValue : Value).isNaN = false ↔ ∀ x ∈ n, x.isNaN = false := by
  cases n with
  | none => simp [Value.isNaN, Value.number?]
  | some x => simp

/-- What passes the checks is in range just when no check was made of a NaN in vain. -/
theorem Passes.inRange_iff (h : c.Passes) :
    c.InRange ↔ ∀ f ∈ Field.heldFromBeyond, (c.get f).isNaN = false := by
  have hwithin : ∀ {low n : Number}, low.isNaN = false → n.lt low = false →
      (low.le n = true ↔ n.isNaN = false) := by
    intro low n hlow hn
    simp [Number.le_iff, hlow, hn]
  have habove : ∀ {low n : Number}, low.isNaN = false → n.le low = false →
      (low.lt n = true ↔ n.isNaN = false) := by
    intro low n hlow hn
    simp [Number.lt_iff, hlow, hn]
  simp only [Field.heldFromBeyond, List.forall_mem_cons, List.not_mem_nil, false_imp_iff,
    implies_true, and_true, get, Number.isNaN_toValue, isNaN_optional]
  constructor
  · intro hc
    exact ⟨(hwithin rfl h.epochs).mp hc.epochs, (hwithin rfl h.batchSize).mp hc.batchSize,
      fun n hn => (hwithin rfl (h.batchesPerEpoch n hn)).mp (hc.batchesPerEpoch n hn),
      (hwithin rfl h.validationBatches).mp hc.validationBatches,
      (hwithin rfl h.momentum).mp hc.momentum, (hwithin rfl h.decayEvery).mp hc.decayEvery,
      fun x hx => (habove rfl (h.gradientLimit x hx)).mp (hc.gradientLimit x hx),
      (hwithin rfl h.epochDelay).mp hc.epochDelay⟩
  · rintro ⟨hepochs, hsize, hbatches, hvalidation, hmomentum, hevery, hlimit, hdelay⟩
    exact {
      epochs := (hwithin rfl h.epochs).mpr hepochs
      batchSize := (hwithin rfl h.batchSize).mpr hsize
      learningRate := h.learningRate
      batchesPerEpoch := fun n hn => (hwithin rfl (h.batchesPerEpoch n hn)).mpr (hbatches n hn)
      validationBatches := (hwithin rfl h.validationBatches).mpr hvalidation
      momentum := (hwithin rfl h.momentum).mpr hmomentum
      decay := h.decay
      decayEvery := (hwithin rfl h.decayEvery).mpr hevery
      gradientLimit := fun x hx => (habove rfl (h.gradientLimit x hx)).mpr (hlimit x hx)
      epochDelay := (hwithin rfl h.epochDelay).mpr hdelay
      optimizer := c.get_optimizer
      loss := c.get_loss }

/-- An accepted configuration is in range just when no field whose check asks what is beyond a bound
was given a NaN. -/
theorem ofEntries_inRange_iff (h : ofEntries entries = .ok c) :
    c.InRange ↔ ∀ f ∈ Field.heldFromBeyond, (given entries f).isNaN = false := by
  obtain ⟨hfollows, hpasses⟩ := ofEntries_eq_ok.mp h
  have hgiven : ∀ f ∈ Field.heldFromBeyond, given entries f = c.get f := by
    intro f hf
    apply hfollows.others <;> rintro rfl <;> simp [Field.heldFromBeyond] at hf
  rw [hpasses.inRange_iff]
  exact forall₂_congr fun f hf => by rw [hgiven f hf]

/-- Entries in different spellings, one of them infinite. -/
def patient : Entries :=
  [("epochs", .int 3), ("lr", .real 0.01), ("gradClip", .real (1.0 / 0.0)), ("batch_size", .bool true)]

theorem ofEntries_inRange_iff_patient : ∃ c, ofEntries patient = .ok c ∧
    (c.InRange ↔ ∀ f ∈ Field.heldFromBeyond, (given patient f).isNaN = false) := by
  have hmade : (ofEntries patient).toOption.isSome = true := by decide +kernel
  obtain ⟨c, hc⟩ := Option.isSome_iff_exists.mp hmade
  have h := toOption_eq_some.mp hc
  exact ⟨c, h, ofEntries_inRange_iff h⟩

/-- A number of epochs that is no number is accepted. -/
theorem ofEntries_beside_range : ∃ c, ofEntries [("epochs", .real (0.0 / 0.0))] = .ok c ∧
    Number.le (.whole 1) c.epochs = false := by
  have hmade : ((ofEntries [("epochs", .real (0.0 / 0.0))]).toOption.map fun c =>
      Number.le (.whole 1) c.epochs) = some false := by
    decide +kernel
  obtain ⟨c, hc, hepochs⟩ := Option.map_eq_some_iff.mp hmade
  exact ⟨c, toOption_eq_some.mp hc, hepochs⟩

end TrainingConfig

end BlockNet
