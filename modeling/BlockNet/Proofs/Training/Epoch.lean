import BlockNet.Proofs.Dataset.Streams
import BlockNet.Proofs.Training.Moves
import BlockNet.Training.Trainer

/-! # What training leaves alone

An epoch moves weights of a model and changes what a trainer has recorded. Where the batches come
from, what the model says of its dataset, and how far the run is, stay as they were. -/

namespace BlockNet

variable {α : Type} [Scalar α]

namespace Trainer

/-! ## What an epoch changes -/

theorem learnEpoch_eq (t : Trainer α) (epoch : Nat) (rate : Number) :
    ∃ learner, (t.learnEpoch epoch rate).1 = { t with learner } ∧ t.model.Moves learner.model := by
  rw [learnEpoch]
  split
  · exact ⟨_, rfl, .refl _⟩
  · exact ⟨_, rfl, Learner.learnAll_moves _ _ _ _ _ _⟩

theorem validate_eq (t : Trainer α) :
    ∃ learner, t.validate.1 = { t with learner } ∧ learner.model = t.model := by
  rw [validate]
  split
  · exact ⟨_, rfl, rfl⟩
  · split <;> exact ⟨_, rfl, rfl⟩

theorem gradientLines_eq (t : Trainer α) :
    ∃ learner, t.gradientLines.1 = { t with learner } ∧ learner.model = t.model := by
  rw [gradientLines]
  split <;> exact ⟨_, rfl, rfl⟩

theorem trainEpoch_eq (t : Trainer α) (epoch : Nat) :
    ∃ learner, (t.trainEpoch epoch).1 = { t with learner } ∧ t.model.Moves learner.model := by
  rw [trainEpoch]
  cases t.config.learningRateAt (.whole epoch) with
  | error fault => exact ⟨_, rfl, .refl _⟩
  | ok rate =>
      dsimp only
      have hlearn := t.learnEpoch_eq epoch rate
      generalize t.learnEpoch epoch rate = learnt at hlearn ⊢
      rcases learnt with ⟨t', fault | totals⟩
      · exact hlearn
      · obtain ⟨learner, rfl : t' = _, hmoves⟩ := hlearn
        obtain ⟨learner', hvalid, hmodel⟩ := validate_eq { t with learner }
        dsimp only
        generalize validate { t with learner } = validated at hvalid ⊢
        rcases validated with ⟨t'', fault | validation⟩
        all_goals exact ⟨learner', hvalid, hmodel ▸ hmoves⟩

/-- An epoch changes the learner, and it is recorded once it has been gone through, whatever comes of
it then. -/
theorem recordEpoch_eq (t : Trainer α) (epoch : Nat) :
    ∃ learner, (t.recordEpoch epoch).1.1 =
      { t with learner, history := t.history ++ (t.trainEpoch epoch).2.toOption.toList } ∧
        t.model.Moves learner.model := by
  have htrain := t.trainEpoch_eq epoch
  rw [recordEpoch]
  generalize t.trainEpoch epoch = trained at htrain ⊢
  rcases trained with ⟨t', fault | metrics⟩
  · obtain ⟨learner, rfl : t' = _, hmoves⟩ := htrain
    exact ⟨learner, by simp [Except.toOption], hmoves⟩
  · obtain ⟨learner, rfl : t' = _, hmoves⟩ := htrain
    obtain ⟨learner', hlines, hmodel⟩ :=
      gradientLines_eq { t with learner, history := t.history ++ [metrics] }
    dsimp only
    cases metrics.text fun x => .ok (Scalar.toFloat x) with
    | error fault => exact ⟨learner, rfl, hmoves⟩
    | ok text =>
        dsimp only
        generalize gradientLines { t with learner, history := t.history ++ [metrics] } = shown
          at hlines ⊢
        rcases shown with ⟨t'', fault | lines⟩
        all_goals exact ⟨learner', hlines, hmodel ▸ hmoves⟩

/-- A trainer that has gone on: its batches come from where they came from, it is as far as it was,
and its model names the same dataset. -/
structure GoneOn (t t' : Trainer α) : Prop where
  source : t'.source = t.source
  validation : t'.validation = t.validation
  stopRequested : t'.stopRequested = t.stopRequested
  running : t'.running = t.running
  finished : t'.finished = t.finished
  dataset : t'.model.dataset = t.model.dataset

/-- An epoch, whether it is recorded or fails. -/
theorem recordEpoch_goneOn (t : Trainer α) (epoch : Nat) :
    GoneOn t (t.recordEpoch epoch).1.1 := by
  obtain ⟨learner, h, hmoves⟩ := t.recordEpoch_eq epoch
  rw [h]
  exact ⟨rfl, rfl, rfl, rfl, rfl, hmoves.dataset⟩

end Trainer

/-! ## Epochs one after another -/

theorem throughEpochs_stopped {σ : Type} {stopped : σ → Bool} {epoch : Nat → σ → σ × Option Fault}
    {s : σ} (h : stopped s = true) (left e : Nat) :
    throughEpochs stopped epoch left e s = (s, none) := by
  cases left with
  | zero => rfl
  | succ left => rw [throughEpochs, if_pos h]

/-- What every epoch keeps is kept by going through epochs. -/
theorem throughEpochs_keeps {σ : Type} {R : σ → σ → Prop} {epoch : Nat → σ → σ × Option Fault}
    (hrefl : ∀ s, R s s) (htrans : ∀ {s s' s''}, R s s' → R s' s'' → R s s'')
    (hstep : ∀ e s, R s (epoch e s).1) (stopped : σ → Bool) (left e : Nat) (s : σ) :
    R s (throughEpochs stopped epoch left e s).1 := by
  induction left generalizing e s with
  | zero => exact hrefl s
  | succ left ih =>
      rw [throughEpochs]
      split
      · exact hrefl s
      · have hepoch := hstep e s
        split
        · rename_i h
          rwa [h] at hepoch
        · rename_i h
          rw [h] at hepoch
          exact htrans hepoch (ih _ _)

theorem throughEpochs_map {σ : Type} {stopped : σ → Bool} {epoch : Nat → σ → σ × Option Fault}
    {g : σ → σ} {P : σ → Prop} (hstopped : ∀ s, stopped (g s) = stopped s)
    (hstep : ∀ e s, P s → epoch e (g s) = (g (epoch e s).1, (epoch e s).2))
    (hkeep : ∀ e s, P s → P (epoch e s).1) (left e : Nat) {s : σ} (hs : P s) :
    throughEpochs stopped epoch left e (g s) =
      (g (throughEpochs stopped epoch left e s).1, (throughEpochs stopped epoch left e s).2) := by
  induction left generalizing e s with
  | zero => rfl
  | succ left ih =>
      rw [throughEpochs, throughEpochs, hstopped, hstep e s hs]
      have hnext := hkeep e s hs
      generalize epoch e s = gone at hnext ⊢
      split
      · rfl
      · rcases gone with ⟨s', _ | fault⟩
        · exact ih (e + 1) hnext
        · rfl

/-! ## New trainers -/

namespace Trainer

/-- Batches, and those of the validation if there is one, are drawn from a dataset. -/
structure DrawsFrom (t : Trainer α) (spec : DatasetSpec) : Prop where
  training : ∃ plan, t.source = .planned plan ∧ plan.spec = spec ∧ plan.split = .train
  validation : ∀ source ∈ t.validation,
    ∃ plan, source = .planned plan ∧ plan.spec = spec ∧ plan.split = .validation

omit [Scalar α] in
theorem DrawsFrom.unique {t : Trainer α} {spec spec' : DatasetSpec} (h : t.DrawsFrom spec)
    (h' : t.DrawsFrom spec') : spec = spec' := by
  obtain ⟨plan, hplan, hspec, -⟩ := h.training
  obtain ⟨plan', hplan', hspec', -⟩ := h'.training
  obtain rfl := Source.planned.inj (hplan.symm.trans hplan')
  exact hspec.symm.trans hspec'

omit [Scalar α] in
theorem DrawsFrom.congr {t t' : Trainer α} {spec : DatasetSpec} (h : t.DrawsFrom spec)
    (hsource : t'.source = t.source) (hvalidation : t'.validation = t.validation) :
    t'.DrawsFrom spec :=
  ⟨hsource ▸ h.training, hvalidation ▸ h.validation⟩

end Trainer

/-- The dataset that a model names, mnist if it names none or an unknown one. -/
def Model.datasetSpec {α : Type} (m : Model α) : DatasetSpec :=
  (DatasetSpec.find (m.dataset.elim .null Value.text)).1

namespace Trainer

omit [Scalar α] in
theorem sourcesOf_eq_ok {m : Model α} {c : TrainingConfig} {source : Source α}
    {validation : Option (Source α)} (h : (sourcesOf m c).1 = .ok (source, validation)) :
    (∃ plan, source = .planned plan ∧ plan.spec = m.datasetSpec ∧ plan.split = .train) ∧
      ∀ s ∈ validation, ∃ plan, s = .planned plan ∧ plan.spec = m.datasetSpec ∧
        plan.split = .validation := by
  obtain ⟨⟨train, valid⟩, hplans, h⟩ := map_eq_ok.mp h
  obtain ⟨train', htrain, hplans⟩ := bind_eq_ok.mp hplans
  obtain ⟨valid', hvalid, hplans⟩ := bind_eq_ok.mp hplans
  obtain ⟨rfl, rfl⟩ := Prod.mk.inj (Except.ok.inj hplans)
  obtain ⟨rfl, rfl⟩ := Prod.mk.inj h
  have htrain := BatchPlan.ofValues_made .train htrain
  have hvalid := BatchPlan.ofValues_made .validation hvalid
  refine ⟨⟨train', rfl, htrain.spec, htrain.split⟩, ?_⟩
  intro s hs
  split at hs
  · exact ⟨valid', (Option.some.inj hs).symm, hvalid.spec, hvalid.split⟩
  · cases hs

omit [Scalar α] in
/-- A trainer without batches of its own draws from the dataset that its model names, and neither
runs nor has run. -/
theorem build_eq_ok {m : Option (Model α)} {config : Value} {t : Trainer α}
    (h : (build m config none none none).1 = .ok t) : ∃ model, m = some model ∧
      t.DrawsFrom model.datasetSpec ∧ t.stopRequested = false ∧ t.running = false ∧
        t.finished = false := by
  cases m with
  | none => cases h
  | some model =>
      simp only [build] at h
      cases hconfig : TrainingConfig.ofValue config with
      | error fault =>
          rw [hconfig] at h
          cases h
      | ok c =>
          simp only [hconfig] at h
          obtain ⟨⟨source, own⟩, hsources, h⟩ := bind_eq_ok.mp h
          rw [ofSources] at h
          obtain ⟨_, -, h⟩ := bind_eq_ok.mp h
          obtain rfl := Except.ok.inj h
          obtain ⟨htraining, hvalidation⟩ := sourcesOf_eq_ok hsources
          exact ⟨model, rfl, ⟨htraining, hvalidation⟩, rfl, rfl, rfl⟩

end Trainer

end BlockNet
