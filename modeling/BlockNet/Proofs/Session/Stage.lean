import BlockNet.Proofs.Session.World
import BlockNet.Proofs.Training.Epoch

/-! # The stages of runs

A run is running, finished, or neither. What callers do at once moves at most one run on, and a flag
that is set stays set. -/

namespace BlockNet.Session

variable {α : Type}

/-- Is a run running, and is it finished? -/
def stage? (s : Session α) (run : Nat) : Option (Bool × Bool) :=
  (s.trainer? run).map fun t => (t.running, t.finished)

@[simp] theorem stage?_note (s : Session α) (entries : List LogEntry) (run : Nat) :
    (s.note entries).stage? run = s.stage? run := rfl

@[simp] theorem stage?_announce (s : Session α) (q : Request α) (run : Nat) :
    (s.announce q).stage? run = s.stage? run := rfl

theorem stage?_congr {s s' : Session α} (h : s'.runs = s.runs) (run : Nat) :
    s'.stage? run = s.stage? run := by
  rw [stage?, trainer?, h, stage?, trainer?]

theorem lt_length_of_stage? {s : Session α} {run : Nat} {stage : Bool × Bool}
    (h : s.stage? run = some stage) : run < s.runs.length := by
  obtain ⟨t, ht, -⟩ := Option.map_eq_some_iff.mp h
  obtain ⟨r, hr, -⟩ := Option.map_eq_some_iff.mp ht
  exact (List.getElem?_eq_some_iff.mp hr).1

@[simp] theorem trainer?_modifyTrainer (s : Session α) (run k : Nat) (f : Trainer α → Trainer α) :
    (s.modifyTrainer run f).trainer? k =
      if run = k then (s.trainer? k).map f else s.trainer? k := by
  rw [trainer?, trainer?, modifyTrainer, List.getElem?_modify]
  split
  · cases s.runs[k]? <;> rfl
  · cases s.runs[k]? <;> rfl

@[simp] theorem length_modifyTrainer (s : Session α) (run : Nat) (f : Trainer α → Trainer α) :
    (s.modifyTrainer run f).runs.length = s.runs.length := List.length_modify ..

theorem stopAsked_congr {s s' : Session α} (h : s'.runs = s.runs) (run : Nat) :
    s'.stopAsked run = s.stopAsked run := by
  rw [stopAsked, trainer?, h, stopAsked, trainer?]

theorem stopAsked_modifyTrainer (s : Session α) (run k : Nat) (f : Trainer α → Trainer α)
    (hf : ∀ t, s.trainer? run = some t → t.stopRequested = true → (f t).stopRequested = true)
    (h : s.stopAsked k = true) : (s.modifyTrainer run f).stopAsked k = true := by
  rw [stopAsked, trainer?_modifyTrainer]
  rw [stopAsked] at h
  by_cases hk : run = k
  · subst hk
    cases ht : s.trainer? run with
    | none => simp
    | some t =>
        rw [ht] at h
        simpa using hf t ht h
  · rwa [if_neg hk]

/-! ## What moves no run on -/

/-- Register and stages are as they were, and flags that were set are set. -/
structure Steady (s s' : Session α) : Prop where
  registered : s'.registered = s.registered
  length : s'.runs.length = s.runs.length
  stage : ∀ k, s'.stage? k = s.stage? k
  asked : ∀ k, s.stopAsked k = true → s'.stopAsked k = true

theorem Steady.of_runs {s s' : Session α} (hruns : s'.runs = s.runs)
    (hregistered : s'.registered = s.registered) : Steady s s' :=
  ⟨hregistered, by rw [hruns], stage?_congr hruns, fun k h => (stopAsked_congr hruns k).trans h⟩

theorem Steady.refl (s : Session α) : Steady s s := .of_runs rfl rfl

theorem modifyTrainer_steady {s : Session α} {run : Nat} {f : Trainer α → Trainer α}
    (hf : ∀ t, s.trainer? run = some t → (f t).running = t.running ∧
      (f t).finished = t.finished ∧ (t.stopRequested = true → (f t).stopRequested = true)) :
    Steady s (s.modifyTrainer run f) := by
  refine ⟨rfl, s.length_modifyTrainer run f, fun k => ?_,
    fun k => s.stopAsked_modifyTrainer run k f fun t ht => (hf t ht).2.2⟩
  rw [stage?, stage?, trainer?_modifyTrainer]
  by_cases hk : run = k
  · subst hk
    cases ht : s.trainer? run with
    | none => simp
    | some t => simp [(hf t ht).1, (hf t ht).2.1]
  · rw [if_neg hk]

theorem stop_steady (s : Session α) (run : Nat) :
    Steady s (s.modifyTrainer run fun t => t.stop) :=
  modifyTrainer_steady fun _ _ => ⟨rfl, rfl, fun _ => rfl⟩

theorem stopAsked_stop (s : Session α) (run : Nat) :
    (s.modifyTrainer run fun t => t.stop).stopAsked run = true := by
  rw [stopAsked, trainer?_modifyTrainer, if_pos rfl]
  cases s.trainer? run <;> rfl

theorem stopRun_steady (s : Session α) (run : Nat) : Steady s (s.stopRun run) := by
  have h := s.stop_steady run
  exact ⟨h.registered, h.length, h.stage, h.asked⟩

theorem pressRun_steady (s : Session α) (run : Nat) : Steady s (s.pressRun run) := by
  rw [pressRun]
  split
  · exact .refl s
  · exact s.stopRun_steady run

theorem recordEpoch_steady [Scalar α] (s : Session α) (run epoch : Nat) :
    Steady s (s.recordEpoch run epoch).1 := by
  rw [recordEpoch]
  split
  · exact .refl s
  · rename_i r hr
    split
    · exact .refl s
    · rename_i m hm
      have hgone := (r.trainer.withModel m).recordEpoch_goneOn epoch
      have hmodify : Steady s (s.modifyTrainer run fun _ =>
          ((r.trainer.withModel m).recordEpoch epoch).1.1) := by
        refine modifyTrainer_steady fun t ht => ?_
        rw [trainer?, hr] at ht
        obtain rfl := Option.some.inj ht
        exact ⟨hgone.running, hgone.finished, hgone.stopRequested.trans⟩
      exact ⟨hmodify.registered, hmodify.length, hmodify.stage, hmodify.asked⟩

/-! ## Starting and ending runs -/

/-- The stage of one run is another one now. -/
structure Moved (s s' : Session α) (run : Nat) (stage : Bool × Bool) : Prop where
  registered : s'.registered = s.registered
  length : s'.runs.length = s.runs.length
  stage : s'.stage? run = some stage
  others : ∀ k, run ≠ k → s'.stage? k = s.stage? k
  asked : ∀ k, s.stopAsked k = true → s'.stopAsked k = true

theorem modifyTrainer_moved {s : Session α} {run : Nat} {f : Trainer α → Trainer α}
    {stage stage' : Bool × Bool} (h : s.stage? run = some stage)
    (hf : ∀ t, s.trainer? run = some t → ((f t).running, (f t).finished) = stage' ∧
      (t.stopRequested = true → (f t).stopRequested = true)) :
    Moved s (s.modifyTrainer run f) run stage' := by
  obtain ⟨t, ht, -⟩ := Option.map_eq_some_iff.mp h
  refine ⟨rfl, s.length_modifyTrainer run f, ?_, fun k hk => ?_,
    fun k => s.stopAsked_modifyTrainer run k f fun t ht => (hf t ht).2⟩
  · rw [stage?, trainer?_modifyTrainer, if_pos rfl, ht]
    exact congrArg some (hf t ht).1
  · rw [stage?, trainer?_modifyTrainer, if_neg hk, stage?]

theorem finishRun_moved {s : Session α} {run : Nat} {stage : Bool × Bool}
    (h : s.stage? run = some stage) (wentThrough : Bool) :
    Moved s (s.finishRun run wentThrough) run (false, true) := by
  have hfinish : Moved s (s.modifyTrainer run fun t => t.finish) run (false, true) :=
    modifyTrainer_moved h fun _ _ => ⟨rfl, id⟩
  exact ⟨hfinish.registered, hfinish.length, hfinish.stage, hfinish.others, hfinish.asked⟩

/-- A run that is not running starts, even if the number of its epochs cannot be told. -/
theorem startRun_moved [Scalar α] {s : Session α} {run : Nat} (h : s.stage? run = some (false, false)) :
    Moved s (s.startRun run).1 run (true, false) := by
  obtain ⟨t, ht, hstage⟩ := Option.map_eq_some_iff.mp h
  obtain ⟨hrunning, -⟩ := Prod.mk.inj hstage
  have hstart : t.start = .ok { t with history := [], finished := false, running := true } := by
    rw [Trainer.start, hrunning]
    rfl
  have hmodify : Moved s (s.modifyTrainer run fun _ =>
      { t with history := [], finished := false, running := true }) run (true, false) := by
    refine modifyTrainer_moved h fun t' ht' => ?_
    obtain rfl := Option.some.inj (ht.symm.trans ht')
    exact ⟨rfl, id⟩
  simp only [startRun, ht, hstart]
  exact ⟨hmodify.registered, hmodify.length, hmodify.stage, hmodify.others, hmodify.asked⟩

theorem startRun_registered (s : Session α) (run : Nat) :
    (s.startRun run).1.registered = s.registered := by
  rw [startRun]
  split
  · rfl
  · split <;> rfl

/-! ## The register -/

theorem unregister_runs (s : Session α) (run : Nat) : (s.unregister run).runs = s.runs := by
  rw [unregister]
  split
  · split <;> rfl
  · rfl

/-- Only the run itself is taken off the register. -/
theorem unregister_registered (s : Session α) (run : Nat) {r : Registration} :
    (s.unregister run).registered = some r ↔ s.registered = some r ∧ r.run ≠ run := by
  rw [unregister]
  split
  · rename_i r' hr'
    split
    · rename_i hrun
      simp only [reduceCtorEq, false_iff, not_and, not_not]
      rintro h
      exact Option.some.inj (hr'.symm.trans h) ▸ hrun
    · rename_i hrun
      refine ⟨fun h => ⟨h, ?_⟩, And.left⟩
      exact Option.some.inj (hr'.symm.trans h) ▸ hrun
  · rename_i hnone
    simp [hnone]

/-- What the registration of a run comes to. -/
structure Entered (s s' : Session α) (caller run : Nat) (t : Trainer α) : Prop where
  fresh : run = s.runs.length
  length : s'.runs.length = s.runs.length + 1
  registered : s'.registered = some ⟨run, caller⟩
  own : ∀ r, s.registered = some r → r.caller = caller
  stopped : ∀ r, s.registered = some r → r.run < s.runs.length → s'.stopAsked r.run = true
  stage : s'.stage? run = some (t.running, t.finished)
  others : ∀ k, k < s.runs.length → s'.stage? k = s.stage? k
  asked : ∀ k, k < s.runs.length → s.stopAsked k = true → s'.stopAsked k = true

theorem Entered.announce {s s' : Session α} {caller run : Nat} {t : Trainer α}
    (h : Entered s s' caller run t) (q : Request α) : Entered s (s'.announce q) caller run t :=
  ⟨h.fresh, h.length, h.registered, h.own, h.stopped, h.stage, h.others, h.asked⟩

theorem Steady.entered {s s₁ : Session α} {caller : Nat} (h : Steady s s₁)
    (hown : ∀ r, s.registered = some r → r.caller = caller ∧ s₁.stopAsked r.run = true)
    (t : Trainer α) (model : Nat) :
    Entered s { s₁ with
      runs := s₁.runs ++ [⟨t, model⟩], registered := some ⟨s₁.runs.length, caller⟩ }
      caller s₁.runs.length t := by
  have hrun : ∀ k, k < s.runs.length → (s₁.runs ++ [⟨t, model⟩])[k]? = s₁.runs[k]? :=
    fun k hk => List.getElem?_append_left (h.length ▸ hk)
  have hasked : ∀ k, k < s.runs.length → s₁.stopAsked k = true →
      stopAsked { s₁ with
        runs := s₁.runs ++ [⟨t, model⟩], registered := some ⟨s₁.runs.length, caller⟩ } k = true := by
    intro k hk hstop
    rwa [stopAsked, trainer?, hrun k hk]
  refine ⟨h.length, by simp [h.length], rfl, fun r hr => (hown r hr).1,
    fun r hr hlt => hasked r.run hlt (hown r hr).2, by simp [stage?, trainer?], fun k hk => ?_,
    fun k hk hstop => hasked k hk (h.asked k hstop)⟩
  rw [← h.stage k, stage?, trainer?, hrun k hk, stage?, trainer?]

theorem register_entered {s s' : Session α} {caller model run : Nat} {t : Trainer α}
    (h : s.register caller t model = some (s', run)) : Entered s s' caller run t := by
  rw [register] at h
  split at h
  · rename_i hnone
    obtain ⟨rfl, rfl⟩ := Prod.mk.inj (Option.some.inj h)
    refine (Steady.refl s).entered (fun r hr => ?_) t model
    rw [hnone] at hr
    cases hr
  · rename_i r hr
    split at h
    · rename_i hcaller
      obtain ⟨rfl, rfl⟩ := Prod.mk.inj (Option.some.inj h)
      refine (s.stop_steady r.run).entered (fun r' hr' => ?_) t model
      obtain rfl := Option.some.inj (hr.symm.trans hr')
      exact ⟨hcaller, s.stopAsked_stop r.run⟩
    · cases h

end BlockNet.Session
