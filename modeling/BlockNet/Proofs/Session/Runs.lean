import BlockNet.Proofs.Session.History
import BlockNet.Proofs.Training.Epoch

/-! # What acts leave alone

No act takes a run away or changes where its batches come from. Only the opening of a run makes a
model name another dataset. -/

namespace BlockNet

namespace Session

variable {α : Type}

/-! ## What an act does to runs -/

/-- Every run is still there, on its model and with batches from where they came from. -/
def RunsKept (s s' : Session α) : Prop :=
  ∀ (run : Nat) (r : SessionRun α), s.runs[run]? = some r → ∃ r', s'.runs[run]? = some r' ∧
    r'.model = r.model ∧ r'.trainer.source = r.trainer.source ∧
      r'.trainer.validation = r.trainer.validation

theorem RunsKept.of_eq {s s' : Session α} (h : s'.runs = s.runs) : RunsKept s s' :=
  fun _ r hr => ⟨r, h ▸ hr, rfl, rfl, rfl⟩

theorem RunsKept.trans {s s' s'' : Session α} (h : RunsKept s s') (h' : RunsKept s' s'') :
    RunsKept s s'' := by
  intro run r hr
  obtain ⟨r', hr', hmodel, hsource, hvalidation⟩ := h run r hr
  obtain ⟨r'', hr'', hmodel', hsource', hvalidation'⟩ := h' run r' hr'
  exact ⟨r'', hr'', hmodel'.trans hmodel, hsource'.trans hsource, hvalidation'.trans hvalidation⟩

/-- A change of one trainer that leaves its batches alone. -/
theorem modifyTrainer_runsKept {s : Session α} {run : Nat} {f : Trainer α → Trainer α}
    (hf : ∀ r, s.runs[run]? = some r →
      (f r.trainer).source = r.trainer.source ∧ (f r.trainer).validation = r.trainer.validation) :
    RunsKept s (s.modifyTrainer run f) := by
  intro k r hr
  by_cases hk : run = k
  · subst hk
    exact ⟨⟨f r.trainer, r.model⟩, by simp [modifyTrainer, hr], rfl, hf r hr⟩
  · exact ⟨r, by simp [modifyTrainer, hk, hr], rfl, rfl, rfl⟩

theorem stopTraining_keeps (s : Session α) : RunsKept s s.stopTraining.1 ∧
    s.stopTraining.1.models = s.models ∧ s.stopTraining.1.dataset = s.dataset := by
  rw [stopTraining]
  split
  · exact ⟨.of_eq rfl, rfl, rfl⟩
  · exact ⟨modifyTrainer_runsKept fun _ _ => ⟨rfl, rfl⟩, rfl, rfl⟩

theorem askToStop_keeps (s : Session α) : RunsKept s s.askToStop ∧
    s.askToStop.models = s.models ∧ s.askToStop.dataset = s.dataset := by
  rw [askToStop]
  split
  · split
    · exact ⟨.of_eq rfl, rfl, rfl⟩
    · exact s.stopTraining_keeps
  · exact ⟨.of_eq rfl, rfl, rfl⟩

theorem register_eq_some {s s' : Session α} {caller model run : Nat} {t : Trainer α}
    (h : s.register caller t model = some (s', run)) :
    RunsKept s s' ∧ s'.runs[run]? = some ⟨t, model⟩ ∧ s'.models = s.models ∧
      s'.dataset = s.dataset := by
  have happend : ∀ s₁ : Session α, RunsKept s₁ { s₁ with
      runs := s₁.runs ++ [⟨t, model⟩], registered := some ⟨s₁.runs.length, caller⟩ } := by
    intro s₁ k r hr
    obtain ⟨hk, -⟩ := List.getElem?_eq_some_iff.mp hr
    exact ⟨r, by rw [List.getElem?_append_left hk, hr], rfl, rfl, rfl⟩
  rw [register] at h
  split at h
  · obtain ⟨rfl, rfl⟩ := Prod.mk.inj (Option.some.inj h)
    exact ⟨happend s, List.getElem?_concat_length, rfl, rfl⟩
  · split at h
    · obtain ⟨rfl, rfl⟩ := Prod.mk.inj (Option.some.inj h)
      exact ⟨(modifyTrainer_runsKept fun _ _ => ⟨rfl, rfl⟩).trans (happend _),
        List.getElem?_concat_length, rfl, rfl⟩
    · cases h

/-- What the opening of a run comes to: its batches are those of the dataset that the model named
before, and afterwards the model names that of the session. -/
structure Opened (s s' : Session α) (run j : Nat) (d : DatasetSpec) (m : Model α) (t : Trainer α) :
    Prop where
  current : s.current = some j
  dataset : s.dataset = some d
  model : s.models[j]? = some m
  draws : t.DrawsFrom m.datasetSpec
  placed : s'.runs[run]? = some ⟨t, j⟩
  kept : RunsKept s s'
  models : s'.models = s.models.modify j fun m => { m with dataset := some d.name.plain }
  loaded : s'.dataset = s.dataset

/-- A run is opened once a trainer has been built and registered; then its model is told. -/
theorem openRun_inv {s s' : Session α} {caller run : Nat} {config : Value} {pausing : Bool}
    (h : s.openRun caller config pausing = (s', .ok run)) :
    ∃ j d t s₁, s.initialized = true ∧ s.current = some j ∧ s.dataset = some d ∧
      (Trainer.build s.models[j]? config none none none).1 = .ok t ∧
      (s.note (Trainer.build s.models[j]? config none none none).2).register caller
        { t with pausing } j = some (s₁, run) ∧
      s' = (s₁.nameDataset j d).note
        [.info ("Training session started on " ++ d.name.plain)] := by
  rw [openRun] at h
  split at h
  · cases h
  · rename_i hready
    have hinitialized : s.initialized = true := by
      rw [requireInitialized] at hready
      split at hready
      · assumption
      · cases hready
    split at h
    · rename_i j d hj hd
      dsimp only at h
      split at h
      · cases h
      · rename_i t hbuilt
        split at h
        · cases h
        · rename_i s₁ run' hregister
          obtain ⟨rfl, hrun⟩ := Prod.mk.inj h
          obtain rfl := Except.ok.inj hrun
          exact ⟨j, d, t, s₁, hinitialized, hj, hd, hbuilt, hregister, rfl⟩
    · cases h

theorem openRun_eq_ok {s s' : Session α} {caller run : Nat} {config : Value} {pausing : Bool}
    (h : s.openRun caller config pausing = (s', .ok run)) : ∃ j d m t, Opened s s' run j d m t := by
  obtain ⟨j, d, t, s₁, -, hj, hd, hbuilt, hregister, rfl⟩ := openRun_inv h
  obtain ⟨m, hm, hdraws, -⟩ := Trainer.build_eq_ok hbuilt
  obtain ⟨hkept, hplaced, hmodels, hdataset⟩ := register_eq_some hregister
  refine ⟨j, d, m, { t with pausing }, hj, hd, hm, hdraws.congr rfl rfl, hplaced, hkept, ?_,
    hdataset⟩
  exact congrArg (List.modify · j _) hmodels

theorem openRun_eq_error {s s' : Session α} {caller : Nat} {config : Value} {pausing : Bool}
    {fault : Fault} (h : s.openRun caller config pausing = (s', .error fault)) :
    RunsKept s s' ∧ s'.models = s.models ∧ s'.dataset = s.dataset := by
  rw [openRun] at h
  split at h
  · obtain ⟨rfl, -⟩ := Prod.mk.inj h
    exact ⟨.of_eq rfl, rfl, rfl⟩
  · split at h
    · dsimp only at h
      split at h
      · obtain ⟨rfl, -⟩ := Prod.mk.inj h
        exact ⟨.of_eq rfl, rfl, rfl⟩
      · split at h
        · obtain ⟨rfl, -⟩ := Prod.mk.inj h
          exact askToStop_keeps (s.note _)
        · cases h
    · obtain ⟨rfl, -⟩ := Prod.mk.inj h
      exact ⟨.of_eq rfl, rfl, rfl⟩

variable [Scalar α]

/-- The model that an act compiles. -/
def builds? (s : Session α) : Act → Option (Model α)
  | .build graph input => (s.build graph input).2.toOption
  | _ => none

/-- The number of the model that an act opens a run on. -/
def opensOn? (s : Session α) : Act → Option Nat
  | .openRun caller config pausing =>
      match (s.openRun caller config pausing).2 with
      | .ok _ => s.current
      | .error _ => none
  | _ => none

/-- The session has a dataset that the other one had too, and its models name the same ones. -/
structure SameNames (s s' : Session α) : Prop where
  dataset : ∀ d, s'.dataset = some d → s.dataset = some d
  names : s'.models.map Model.datasetSpec = s.models.map Model.datasetSpec

omit [Scalar α] in
theorem SameNames.of_eq {s s' : Session α} (hmodels : s'.models = s.models)
    (hdataset : s'.dataset = s.dataset) : SameNames s s' :=
  ⟨fun _ hd => hdataset ▸ hd, by rw [hmodels]⟩

theorem recordEpoch_keeps (s : Session α) (run epoch : Nat) :
    RunsKept s (s.recordEpoch run epoch).1 ∧ SameNames s (s.recordEpoch run epoch).1 := by
  rw [recordEpoch]
  split
  · exact ⟨.of_eq rfl, .of_eq rfl rfl⟩
  · rename_i r hr
    split
    · exact ⟨.of_eq rfl, .of_eq rfl rfl⟩
    · rename_i m hm
      have hgone := (r.trainer.withModel m).recordEpoch_goneOn epoch
      have hkept : RunsKept s (s.modifyTrainer run fun _ =>
          ((r.trainer.withModel m).recordEpoch epoch).1.1) := by
        refine modifyTrainer_runsKept fun r' hr' => ?_
        obtain rfl := Option.some.inj (hr.symm.trans hr')
        exact ⟨hgone.source, hgone.validation⟩
      have hname : Model.datasetSpec
          ((r.trainer.withModel m).recordEpoch epoch).1.1.model = m.datasetSpec := by
        rw [Model.datasetSpec, hgone.dataset]
        rfl
      refine ⟨hkept, fun _ => id, List.ext_getElem? fun j => ?_⟩
      simp only [modifyTrainer, note, List.getElem?_map, List.getElem?_set]
      split
      · rename_i hj
        subst hj
        rw [hm, if_pos (List.getElem?_eq_some_iff.mp hm).1]
        exact congrArg some hname
      · rfl

/-- What an act does to models and datasets: it opens a run, compiles a model, loads a dataset, or
leaves them as they are. -/
theorem act_names (s : Session α) (a : Act) :
    (∃ run j d m t, s.opensOn? a = some j ∧ Opened s (s.act a) run j d m t) ∨
      s.opensOn? a = none ∧
        ((∃ m, s.builds? a = some m ∧ (s.act a).models = s.models ++ [m] ∧
            (s.act a).dataset = s.dataset) ∨
          s.builds? a = none ∧
            ((∃ name, a = .load name ∧ (s.act a).models = s.models ∧
                (s.act a).dataset = some (DatasetSpec.find name).1) ∨
              (∀ name, a ≠ .load name) ∧ SameNames s (s.act a))) := by
  cases a with
  | prepare =>
      refine .inr ⟨rfl, .inr ⟨rfl, .inr ⟨by rintro _ ⟨⟩, ?_⟩⟩⟩
      rw [act, prepare]
      split <;> exact .of_eq rfl rfl
  | dispose =>
      refine .inr ⟨rfl, .inr ⟨rfl, .inr ⟨by rintro _ ⟨⟩, by rintro _ ⟨⟩, ?_⟩⟩⟩
      exact congrArg (List.map _) s.stopTraining_keeps.2.1
  | stop =>
      obtain ⟨-, hmodels, hdataset⟩ := s.stopTraining_keeps
      exact .inr ⟨rfl, .inr ⟨rfl, .inr ⟨by rintro _ ⟨⟩, .of_eq hmodels hdataset⟩⟩⟩
  | build graph input =>
      obtain ⟨-, hmodels, hdataset⟩ := s.stopTraining_keeps
      refine .inr ⟨rfl, ?_⟩
      rw [builds?, act, build]
      split
      · exact .inr ⟨rfl, .inr ⟨by rintro _ ⟨⟩, .of_eq rfl rfl⟩⟩
      · dsimp only
        split
        · exact .inr ⟨rfl, .inr ⟨by rintro _ ⟨⟩, .of_eq hmodels hdataset⟩⟩
        · split
          · exact .inr ⟨rfl, .inr ⟨by rintro _ ⟨⟩, .of_eq hmodels hdataset⟩⟩
          · rename_i m _ _
            exact .inl ⟨m, rfl, congrArg (· ++ [m]) hmodels, hdataset⟩
  | load name => exact .inr ⟨rfl, .inr ⟨rfl, .inl ⟨name, rfl, rfl, rfl⟩⟩⟩
  | openRun caller config pausing =>
      rw [opensOn?, act]
      cases hopen : s.openRun caller config pausing with
      | mk s' result =>
          cases result with
          | ok run =>
              obtain ⟨j, d, m, t, h⟩ := openRun_eq_ok hopen
              exact .inl ⟨run, j, d, m, t, h.current, h⟩
          | error fault =>
              obtain ⟨-, hmodels, hdataset⟩ := openRun_eq_error hopen
              exact .inr ⟨rfl, .inr ⟨rfl, .inr ⟨by rintro _ ⟨⟩, .of_eq hmodels hdataset⟩⟩⟩
  | startRun run =>
      refine .inr ⟨rfl, .inr ⟨rfl, .inr ⟨by rintro _ ⟨⟩, ?_⟩⟩⟩
      rw [act, startRun]
      split
      · exact .of_eq rfl rfl
      · split <;> exact .of_eq rfl rfl
  | recordEpoch run epoch =>
      exact .inr ⟨rfl, .inr ⟨rfl, .inr
        ⟨by rintro _ ⟨⟩, (s.recordEpoch_keeps run epoch).2⟩⟩⟩
  | endRun run wentThrough =>
      refine .inr ⟨rfl, .inr ⟨rfl, .inr ⟨by rintro _ ⟨⟩, ?_⟩⟩⟩
      rw [act, endRun, unregister]
      split
      · split <;> exact .of_eq rfl rfl
      · exact .of_eq rfl rfl

theorem act_runsKept (s : Session α) (a : Act) : RunsKept s (s.act a) := by
  cases a with
  | prepare =>
      rw [act, prepare]
      split <;> exact .of_eq rfl
  | dispose => exact s.stopTraining_keeps.1
  | stop => exact s.stopTraining_keeps.1
  | build graph input =>
      rw [act, build]
      split
      · exact .of_eq rfl
      · dsimp only
        split
        · exact s.stopTraining_keeps.1
        · split
          · exact s.stopTraining_keeps.1
          · exact s.stopTraining_keeps.1
  | load name => exact .of_eq rfl
  | openRun caller config pausing =>
      rw [act]
      cases hopen : s.openRun caller config pausing with
      | mk s' result =>
          cases result with
          | ok run =>
              obtain ⟨_, _, _, _, h⟩ := openRun_eq_ok hopen
              exact h.kept
          | error fault => exact (openRun_eq_error hopen).1
  | startRun run =>
      rw [act, startRun]
      split
      · exact .of_eq rfl
      · rename_i t ht
        split
        · exact .of_eq rfl
        · rename_i t' hstart
          have hkept : RunsKept s (s.modifyTrainer run fun _ => t') := by
            refine modifyTrainer_runsKept fun r hr => ?_
            rw [trainer?, hr] at ht
            obtain rfl := Option.some.inj ht
            rw [Trainer.start] at hstart
            split at hstart
            · cases hstart
            · obtain rfl := Except.ok.inj hstart
              exact ⟨rfl, rfl⟩
          exact hkept
  | recordEpoch run epoch => exact (s.recordEpoch_keeps run epoch).1
  | endRun run wentThrough =>
      have hfinish : RunsKept s (s.modifyTrainer run fun t => t.finish) :=
        modifyTrainer_runsKept fun _ _ => ⟨rfl, rfl⟩
      rw [act, endRun, unregister]
      split
      · split <;> exact hfinish
      · exact hfinish

theorem replay_runsKept (s : Session α) (acts : List Act) : RunsKept s (s.replay acts) := by
  induction acts with
  | nil => exact .of_eq rfl
  | cons a acts ih => exact ih.trans (act_runsKept _ a)

end Session

end BlockNet
