import BlockNet.Catalog.Stock
import BlockNet.Model.Compilation
import BlockNet.Proofs.Training.Epoch
import Mathlib.Data.Nat.Find

/-! # The course of a run

A run records its epochs one after another, from the first on, until one of them is asked to be the
last. It does not matter when in an epoch a stop is asked for, since an epoch never looks at that;
for the same reason a run with breaks goes as one without. -/

namespace BlockNet.Trainer

variable {α : Type} [Scalar α]

/-! ## What an epoch comes to -/

theorem trainEpoch_epoch {t : Trainer α} {epoch : Nat} {m : Metrics α}
    (h : (t.trainEpoch epoch).2 = .ok m) : m.epoch = .int epoch := by
  rw [trainEpoch] at h
  split at h
  · cases h
  · split at h
    · cases h
    · split at h
      · cases h
      · obtain ⟨_, -, h⟩ := bind_eq_ok.mp h
        obtain rfl := Except.ok.inj h
        rfl

theorem recordEpoch_trained {t : Trainer α} {epoch : Nat} {m : Metrics α}
    (h : (t.recordEpoch epoch).2 = .ok m) : (t.trainEpoch epoch).2 = .ok m := by
  rw [recordEpoch] at h
  rcases htrain : t.trainEpoch epoch with ⟨t', fault | metrics⟩
  · rw [htrain] at h
    cases h
  · rw [htrain] at h
    dsimp only at h
    split at h
    · cases h
    · split at h
      · cases h
      · exact h

/-! ## What an epoch does not look at -/

/-- The trainer with a stop asked for or not, making breaks or not. -/
def under (t : Trainer α) (stopRequested pausing : Bool) : Trainer α :=
  { t with stopRequested, pausing }

theorem learnEpoch_under (t : Trainer α) (stopRequested pausing : Bool) (epoch : Nat)
    (rate : Number) : (t.under stopRequested pausing).learnEpoch epoch rate =
      ((t.learnEpoch epoch rate).1.under stopRequested pausing, (t.learnEpoch epoch rate).2) := by
  simp only [learnEpoch, under]
  split <;> rfl

theorem validate_under (t : Trainer α) (stopRequested pausing : Bool) :
    (t.under stopRequested pausing).validate =
      (t.validate.1.under stopRequested pausing, t.validate.2) := by
  simp only [validate, under, model]
  split
  · rfl
  · split <;> rfl

theorem gradientLines_under (t : Trainer α) (stopRequested pausing : Bool) :
    (t.under stopRequested pausing).gradientLines =
      (t.gradientLines.1.under stopRequested pausing, t.gradientLines.2) := by
  simp only [gradientLines, under, model]
  split <;> rfl

theorem trainEpoch_under (t : Trainer α) (stopRequested pausing : Bool) (epoch : Nat) :
    (t.under stopRequested pausing).trainEpoch epoch =
      ((t.trainEpoch epoch).1.under stopRequested pausing, (t.trainEpoch epoch).2) := by
  have hrate : (t.under stopRequested pausing).config.learningRateAt (.whole epoch) =
      t.config.learningRateAt (.whole epoch) := rfl
  rw [trainEpoch, trainEpoch, hrate]
  cases t.config.learningRateAt (.whole epoch) with
  | error fault => rfl
  | ok rate =>
      simp only [learnEpoch_under]
      rcases t.learnEpoch epoch rate with ⟨t', fault | totals⟩
      · rfl
      · simp only [validate_under]
        rcases t'.validate with ⟨t'', fault | validation⟩ <;> rfl

/-- An epoch goes the same whether a stop is asked for or not, so a stop asked for during an epoch is
one asked for at its end. -/
theorem recordEpoch_under (t : Trainer α) (stopRequested pausing : Bool) (epoch : Nat) :
    (t.under stopRequested pausing).recordEpoch epoch =
      (((t.recordEpoch epoch).1.1.under stopRequested pausing, (t.recordEpoch epoch).1.2),
        (t.recordEpoch epoch).2) := by
  rw [recordEpoch, recordEpoch, trainEpoch_under]
  rcases t.trainEpoch epoch with ⟨t', fault | metrics⟩
  · rfl
  · have hlines := gradientLines_under { t' with history := t'.history ++ [metrics] }
      stopRequested pausing
    simp only [under] at hlines ⊢
    split
    · rfl
    · rw [hlines]
      rcases gradientLines { t' with history := t'.history ++ [metrics] } with
        ⟨t'', fault | lines⟩ <;> rfl

/-! ## Epochs one after another -/

/-- The trainer after its first epochs. -/
def afterEpochs (t : Trainer α) : Nat → Trainer α
  | 0 => t
  | e + 1 => ((t.afterEpochs e).recordEpoch (e + 1)).1.1

/-- What the epoch comes to that follows the first `e` ones. -/
def epochAt (t : Trainer α) (e : Nat) : Outcome (Metrics α) :=
  ((t.afterEpochs e).recordEpoch (e + 1)).2

/-- Figures of the first epochs of a trainer, one after another. -/
def Recorded (t : Trainer α) (history : List (Metrics α)) : Prop :=
  ∀ e (h : e < history.length), ((t.afterEpochs e).trainEpoch (e + 1)).2 = .ok history[e]

theorem Recorded.numbered {t : Trainer α} {history : List (Metrics α)} (h : t.Recorded history) :
    history.map (·.epoch) = (List.range history.length).map fun e => .int (e + 1) := by
  refine List.ext_getElem (by simp) fun e he _ => ?_
  rw [List.length_map] at he
  simpa using trainEpoch_epoch (h e he)

theorem Recorded.concat {t : Trainer α} {history : List (Metrics α)} (h : t.Recorded history)
    {m : Metrics α} (hm : ((t.afterEpochs history.length).trainEpoch (history.length + 1)).2 = .ok m) :
    t.Recorded (history ++ [m]) := by
  intro e he
  rw [List.length_append, List.length_singleton] at he
  rcases Nat.lt_succ_iff_lt_or_eq.mp he with he | rfl
  · rw [List.getElem_append_left he]
    exact h e he
  · rw [List.getElem_concat_length rfl]
    exact hm

theorem afterEpochs_eq (t : Trainer α) (e : Nat) :
    ∃ learner history, t.afterEpochs e = { t with learner, history } := by
  induction e with
  | zero => exact ⟨_, _, rfl⟩
  | succ e ih =>
      obtain ⟨learner, history, ih⟩ := ih
      obtain ⟨learner', hnext, -⟩ := (t.afterEpochs e).recordEpoch_eq (e + 1)
      rw [afterEpochs, hnext, ih]
      exact ⟨_, _, rfl⟩

theorem afterEpochs_succ_history (t : Trainer α) (e : Nat) :
    (t.afterEpochs (e + 1)).history = (t.afterEpochs e).history ++
      ((t.afterEpochs e).trainEpoch (e + 1)).2.toOption.toList := by
  obtain ⟨_, h, -⟩ := (t.afterEpochs e).recordEpoch_eq (e + 1)
  rw [afterEpochs, h]

/-- The epochs that have been gone through are in the history, each with what it came to. -/
theorem afterEpochs_recorded {t : Trainer α} (hnew : t.history = []) {e : Nat}
    (hgone : ∀ i < e, ∃ m, t.epochAt i = .ok m) :
    t.Recorded (t.afterEpochs e).history ∧ (t.afterEpochs e).history.length = e := by
  induction e with
  | zero =>
      have hnone : (t.afterEpochs 0).history = [] := hnew
      rw [hnone]
      exact ⟨fun e h => by simp at h, rfl⟩
  | succ e ih =>
      obtain ⟨hrecorded, hlength⟩ := ih fun i hi => hgone i (by omega)
      obtain ⟨m, hm⟩ := hgone e (by omega)
      have htrained := recordEpoch_trained hm
      rw [afterEpochs_succ_history, htrained]
      refine ⟨hrecorded.concat (hlength.symm ▸ htrained), ?_⟩
      simp [Except.toOption, hlength]

/-! ## What who follows does -/

/-- What is done at the end of an epoch that came to these figures. -/
def reactionAt (t : Trainer α) (f : Follower α) (e : Nat) (m : Metrics α) : Reaction :=
  f.onEpoch m (t.afterEpochs (e + 1)).learner

/-- A stop is asked for in the epoch that follows the first `e` ones, or at its end. -/
def AsksAt (t : Trainer α) (f : Follower α) (e : Nat) : Prop :=
  f.meanwhile (e + 1) = true ∨ ∃ m, t.epochAt e = .ok m ∧ (t.reactionAt f e m).stops = true

/-- The epoch that follows the first `e` ones fails, or who is told of it does. -/
def FailsAt (t : Trainer α) (f : Follower α) (e : Nat) (fault : Fault) : Prop :=
  t.epochAt e = .error fault ∨ ∃ m, t.epochAt e = .ok m ∧ (t.reactionAt f e m).fault? = some fault

/-- The epoch that follows the first `e` ones does not fail, and neither does who is told of it. -/
def PassesAt (t : Trainer α) (f : Follower α) (e : Nat) : Prop :=
  ∃ m, t.epochAt e = .ok m ∧ (t.reactionAt f e m).fault? = none

theorem recordEpoch_heed (t : Trainer α) (stops : Bool) (epoch : Nat) :
    (t.heed stops).recordEpoch epoch =
      (((t.recordEpoch epoch).1.1.heed stops, (t.recordEpoch epoch).1.2),
        (t.recordEpoch epoch).2) := by
  obtain ⟨learner, h, -⟩ := t.recordEpoch_eq epoch
  have hunder := t.recordEpoch_under (t.stopRequested || stops) t.pausing epoch
  change (t.heed stops).recordEpoch epoch = _ at hunder
  rw [hunder, h]
  rfl

omit [Scalar α] in
theorem heed_heed (t : Trainer α) (stops stops' : Bool) :
    (t.heed stops).heed stops' = t.heed (stops || stops') := by
  simp [heed, Bool.or_assoc]

variable {t : Trainer α} {f : Follower α} {e n : Nat}

theorem tellEpoch_error (log : List LogEntry) (told : List (Told α)) {fault : Fault}
    (h : t.epochAt e = .error fault) :
    ∃ log', tellEpoch f (e + 1) ⟨t.afterEpochs e, log, told⟩ =
      (⟨(t.afterEpochs (e + 1)).heed (f.meanwhile (e + 1)), log', told⟩, some fault) := by
  rw [epochAt] at h
  refine ⟨log ++ ((t.afterEpochs e).recordEpoch (e + 1)).1.2, ?_⟩
  rw [tellEpoch, recordEpoch_heed, h]
  rfl

/-- A trainer that makes no breaks tells of an epoch and does as it is asked. -/
theorem tellEpoch_ok (log : List LogEntry) (told : List (Told α)) (hsync : t.pausing = false)
    {m : Metrics α} (h : t.epochAt e = .ok m) :
    ∃ stops log', (stops = true ↔ t.AsksAt f e) ∧
      tellEpoch f (e + 1) ⟨t.afterEpochs e, log, told⟩ =
        (⟨(t.afterEpochs (e + 1)).heed stops, log', told ++ [.epoch m]⟩,
          (t.reactionAt f e m).fault?) := by
  refine ⟨f.meanwhile (e + 1) || (t.reactionAt f e m).stops,
    log ++ ((t.afterEpochs e).recordEpoch (e + 1)).1.2, ?_, ?_⟩
  · rw [Bool.or_eq_true]
    refine or_congr_right ⟨fun hstops => ⟨m, h, hstops⟩, ?_⟩
    rintro ⟨m', h', hstops⟩
    obtain rfl := Except.ok.inj (h.symm.trans h')
    exact hstops
  · have hbreak :
        ((t.afterEpochs (e + 1)).heed (f.meanwhile (e + 1))).pauseAfter (e + 1) = none := by
      obtain ⟨_, _, hafter⟩ := t.afterEpochs_eq (e + 1)
      simp [hafter, heed, pauseAfter, hsync]
    rw [afterEpochs] at hbreak
    rw [epochAt] at h
    rw [tellEpoch, recordEpoch_heed, h]
    simp only [hbreak, heed_heed, Option.or_none]
    rfl

/-! ## The epochs of a run -/

/-- Goes through epochs, telling who follows. -/
def tellEpochs (f : Follower α) : Nat → Nat → Noted α → Noted α × Option Fault :=
  throughEpochs (fun s => s.trainer.stopRequested) (tellEpoch f)

theorem tellEpochs_succ {log : List LogEntry} {told : List (Told α)}
    (hstop : t.stopRequested = false) (he : e < n) :
    tellEpochs f (n - e) (e + 1) ⟨t.afterEpochs e, log, told⟩ =
      match tellEpoch f (e + 1) ⟨t.afterEpochs e, log, told⟩ with
      | (s, some fault) => (s, some fault)
      | (s, none) => tellEpochs f (n - (e + 1)) (e + 1 + 1) s := by
  obtain ⟨_, _, hafter⟩ := t.afterEpochs_eq e
  rw [show n - e = n - (e + 1) + 1 by omega, tellEpochs, throughEpochs,
    if_neg (by simp [hafter, hstop])]
  rcases tellEpoch f (e + 1) ⟨t.afterEpochs e, log, told⟩ with ⟨s, _ | fault⟩ <;> rfl

theorem afterEpochs_succ_told {m : Metrics α} (h : t.epochAt e = .ok m) :
    (t.afterEpochs (e + 1)).history.map Told.epoch =
      (t.afterEpochs e).history.map .epoch ++ [.epoch m] := by
  rw [afterEpochs_succ_history, recordEpoch_trained h, List.map_append]
  rfl

/-- As long as epochs go through, the run goes on, and their figures are told. -/
theorem tellEpochs_goesOn (log : List LogEntry) (hnew : t.history = [])
    (hsync : t.pausing = false) (hstop : t.stopRequested = false) (he : e ≤ n)
    (hgoes : ∀ i < e, t.PassesAt f i ∧ ¬ t.AsksAt f i) :
    ∃ log', tellEpochs f n 1 ⟨t, log, []⟩ =
      tellEpochs f (n - e) (e + 1)
        ⟨t.afterEpochs e, log', (t.afterEpochs e).history.map .epoch⟩ := by
  induction e with
  | zero =>
      have hnone : (t.afterEpochs 0).history = [] := hnew
      exact ⟨log, by rw [hnone]; rfl⟩
  | succ e ih =>
      obtain ⟨log', ih⟩ := ih (by omega) fun i hi => hgoes i (by omega)
      obtain ⟨⟨m, hm, hfine⟩, hasks⟩ := hgoes e (by omega)
      obtain ⟨stops, log'', hstops, htell⟩ := tellEpoch_ok (f := f) log'
        ((t.afterEpochs e).history.map .epoch) hsync hm
      obtain rfl : stops = false := Bool.eq_false_iff.mpr (mt hstops.mp hasks)
      have hsame : (t.afterEpochs (e + 1)).heed false = t.afterEpochs (e + 1) := by simp [heed]
      refine ⟨log'', ih.trans ?_⟩
      rw [tellEpochs_succ hstop he, htell, hfine, hsame, ← afterEpochs_succ_told hm]

/-- A run whose epochs all go through goes through all of them. -/
theorem tellEpochs_all (log : List LogEntry) (hnew : t.history = [])
    (hsync : t.pausing = false) (hstop : t.stopRequested = false)
    (hgoes : ∀ i < n, t.PassesAt f i ∧ ¬ t.AsksAt f i) :
    ∃ stops log', tellEpochs f n 1 ⟨t, log, []⟩ =
      (⟨(t.afterEpochs n).heed stops, log', (t.afterEpochs n).history.map .epoch⟩, none) := by
  obtain ⟨log', h⟩ := tellEpochs_goesOn log hnew hsync hstop (Nat.le_refl n) hgoes
  refine ⟨false, log', h.trans ?_⟩
  rw [Nat.sub_self, tellEpochs, throughEpochs]
  simp [heed]

/-- An epoch that is asked to be the last is the last. -/
theorem tellEpochs_asked (log : List LogEntry) (hnew : t.history = [])
    (hsync : t.pausing = false) (hstop : t.stopRequested = false) (he : e < n)
    (hgoes : ∀ i < e, t.PassesAt f i ∧ ¬ t.AsksAt f i)
    (hpasses : t.PassesAt f e) (hasks : t.AsksAt f e) :
    ∃ stops log', tellEpochs f n 1 ⟨t, log, []⟩ =
      (⟨(t.afterEpochs (e + 1)).heed stops, log', (t.afterEpochs (e + 1)).history.map .epoch⟩,
        none) := by
  obtain ⟨m, hm, hfine⟩ := hpasses
  obtain ⟨log', h⟩ := tellEpochs_goesOn log hnew hsync hstop (Nat.le_of_lt he) hgoes
  obtain ⟨stops, log'', hstops, htell⟩ := tellEpoch_ok (f := f) log'
    ((t.afterEpochs e).history.map .epoch) hsync hm
  refine ⟨stops, log'', h.trans ?_⟩
  rw [tellEpochs_succ hstop he, htell, hfine, ← afterEpochs_succ_told hm]
  exact throughEpochs_stopped (by simp [heed, hstops.mpr hasks]) _ _

/-- A fault in an epoch, or of who is told of it, ends the run. -/
theorem tellEpochs_fails (log : List LogEntry) (hnew : t.history = [])
    (hsync : t.pausing = false) (hstop : t.stopRequested = false) (he : e < n)
    (hgoes : ∀ i < e, t.PassesAt f i ∧ ¬ t.AsksAt f i)
    {fault : Fault} (hfails : t.FailsAt f e fault) :
    ∃ stops log', tellEpochs f n 1 ⟨t, log, []⟩ =
      (⟨(t.afterEpochs (e + 1)).heed stops, log',
        ((t.afterEpochs e).history ++ (t.epochAt e).toOption.toList).map .epoch⟩, some fault) := by
  obtain ⟨log', h⟩ := tellEpochs_goesOn log hnew hsync hstop (Nat.le_of_lt he) hgoes
  rw [tellEpochs_succ hstop he] at h
  rcases hfails with hfault | ⟨m, hm, hfault⟩
  · obtain ⟨log'', htell⟩ := tellEpoch_error (f := f) log'
      ((t.afterEpochs e).history.map .epoch) hfault
    rw [htell] at h
    exact ⟨f.meanwhile (e + 1), log'', by simp [h, hfault, Except.toOption]⟩
  · obtain ⟨stops, log'', -, htell⟩ := tellEpoch_ok (f := f) log'
      ((t.afterEpochs e).history.map .epoch) hsync hm
    rw [htell, hfault] at h
    exact ⟨stops, log'', by simp [h, hm, Except.toOption]⟩

/-! ## Whole runs -/

/-- The trainer at the start of a run. -/
def begun (t : Trainer α) : Trainer α := { t with history := [], finished := false, running := true }

theorem run_eq (hidle : t.running = false) (hcount : t.config.epochCount = .ok n) :
    t.run f =
      match tellEpochs f n 1 ⟨t.begun, [t.begun.startNote], []⟩ with
      | (s, some fault) => (breakOff s, .error fault)
      | (s, none) => complete f s := by
  have hstart : t.start = .ok t.begun := by simp [start, hidle, begun]
  have hcount' : t.begun.config.epochCount = .ok n := hcount
  rw [run, hstart]
  simp only [hcount']
  rfl

theorem run_eq_error (hidle : t.running = false) {fault : Fault}
    (hcount : t.config.epochCount = .error fault) :
    t.run f = (breakOff ⟨t.begun, [t.begun.startNote], []⟩, .error fault) := by
  have hstart : t.start = .ok t.begun := by simp [start, hidle, begun]
  have hcount' : t.begun.config.epochCount = .error fault := hcount
  rw [run, hstart]
  simp only [hcount']

/-- What a run leaves: a history of the first epochs, and a trainer that does not run any more. -/
structure Leaves (t : Trainer α) (f : Follower α) (history : List (Metrics α)) : Prop where
  recorded : t.begun.Recorded history
  numbered : history.map (·.epoch) = (List.range history.length).map fun e => .int (e + 1)
  kept : (t.run f).1.trainer.history = history
  running : (t.run f).1.trainer.running = false
  finished : (t.run f).1.trainer.finished = true

/-- What a run leaves that goes through: who follows has been told of each epoch of the history, in
order, and then of the history, which is also given back. -/
structure Completes (t : Trainer α) (f : Follower α) (history : List (Metrics α)) : Prop
    extends Leaves t f history where
  told : (t.run f).1.told = history.map .epoch ++ [.complete history]
  given : (t.run f).2 =
    (f.onComplete history (t.run f).1.trainer.learner).fault?.elim (.ok history) .error

theorem completes_of_tellEpochs (hidle : t.running = false) (hcount : t.config.epochCount = .ok n)
    (hgone : ∀ i < e, ∃ m, t.begun.epochAt i = .ok m)
    (hrun : ∃ stops log', tellEpochs f n 1 ⟨t.begun, [t.begun.startNote], []⟩ =
      (⟨(t.begun.afterEpochs e).heed stops, log', (t.begun.afterEpochs e).history.map .epoch⟩,
        none)) :
    Completes t f (t.begun.afterEpochs e).history ∧ (t.begun.afterEpochs e).history.length = e := by
  obtain ⟨stops, log', hrun⟩ := hrun
  obtain ⟨hrecorded, hlength⟩ := afterEpochs_recorded (t := t.begun) rfl hgone
  have hended := run_eq (f := f) hidle hcount
  rw [hrun] at hended
  refine ⟨⟨⟨hrecorded, hrecorded.numbered, congrArg (·.1.trainer.history) hended,
    congrArg (·.1.trainer.running) hended, congrArg (·.1.trainer.finished) hended⟩,
    congrArg (·.1.told) hended, ?_⟩, hlength⟩
  rw [hended]
  rfl

theorem leaves_of_failsAt (hidle : t.running = false) (hsync : t.pausing = false)
    (hcount : t.config.epochCount = .ok n) (hstop : t.stopRequested = false) (he : e < n)
    (hgoes : ∀ i < e, t.begun.PassesAt f i ∧ ¬ t.begun.AsksAt f i) {fault : Fault}
    (hfails : t.begun.FailsAt f e fault) :
    ∃ history heard, Leaves t f history ∧ (t.run f).2 = .error fault ∧
      (t.run f).1.told = heard.map .epoch ∧ heard <+: history ∧ history.length ≤ e + 1 ∧
      heard.length = if (t.begun.epochAt e).isOk then e + 1 else e := by
  obtain ⟨hrecorded, hlength⟩ := afterEpochs_recorded (t := t.begun) rfl fun i hi =>
    (hgoes i hi).1.imp fun _ hm => hm.1
  obtain ⟨stops, log', hrun⟩ := tellEpochs_fails (t := t.begun) [t.begun.startNote] rfl
    hsync hstop he hgoes hfails
  have hended := run_eq (f := f) hidle hcount
  rw [hrun] at hended
  have hnext := t.begun.afterEpochs_succ_history e
  have hall : t.begun.Recorded (t.begun.afterEpochs (e + 1)).history ∧
      (t.begun.afterEpochs (e + 1)).history.length ≤ e + 1 := by
    rw [hnext]
    cases htrained : ((t.begun.afterEpochs e).trainEpoch (e + 1)).2 with
    | error fault =>
        rw [show (Except.error fault : Outcome (Metrics α)).toOption.toList = [] from rfl,
          List.append_nil]
        exact ⟨hrecorded, by omega⟩
    | ok m =>
        refine ⟨hrecorded.concat (hlength.symm ▸ htrained), ?_⟩
        simp [Except.toOption, hlength]
  refine ⟨_, (t.begun.afterEpochs e).history ++ (t.begun.epochAt e).toOption.toList,
    ⟨hall.1, hall.1.numbered, congrArg (·.1.trainer.history) hended,
      congrArg (·.1.trainer.running) hended, congrArg (·.1.trainer.finished) hended⟩,
    congrArg (·.2) hended, congrArg (·.1.told) hended, ?_, hall.2, ?_⟩
  · rw [hnext]
    refine (List.prefix_append_right_inj _).mpr ?_
    cases hepoch : t.begun.epochAt e with
    | error fault => exact List.nil_prefix
    | ok m => simp [recordEpoch_trained hepoch]
  · cases t.begun.epochAt e with
    | error fault => simp [Except.toOption, Except.isOk, Except.toBool, hlength]
    | ok m => simp [Except.toOption, Except.isOk, Except.toBool, hlength]

/-! ## Breaks between epochs -/

/-- The trainer with breaks between its epochs. -/
def withBreaks (t : Trainer α) : Trainer α := { t with pausing := true }

/-- What was noted of a trainer, with breaks between its epochs. -/
def pausingNoted (s : Noted α) : Noted α := { s with trainer := s.trainer.withBreaks }

theorem tellEpoch_eq (f : Follower α) (epoch : Nat) (s : Noted α) :
    ∃ learner history stopRequested,
      (tellEpoch f epoch s).1.trainer = { s.trainer with learner, history, stopRequested } ∧
        s.trainer.model.Moves learner.model := by
  obtain ⟨learner, h, hmoves⟩ := (s.trainer.heed (f.meanwhile epoch)).recordEpoch_eq epoch
  rw [tellEpoch]
  generalize (s.trainer.heed (f.meanwhile epoch)).recordEpoch epoch = recorded at h ⊢
  rcases recorded with ⟨⟨t', log⟩, fault | m⟩
  all_goals
    obtain rfl : t' = _ := h
    exact ⟨_, _, _, rfl, hmoves⟩

/-- A trainer that would make no break that fails goes through an epoch as it does without breaks. -/
theorem tellEpoch_withBreaks {s : Noted α} (hsync : s.trainer.pausing = false)
    (hbreaks : ∀ epoch, s.trainer.withBreaks.pauseAfter epoch = none) (epoch : Nat) :
    tellEpoch f epoch (pausingNoted s) =
      (pausingNoted (tellEpoch f epoch s).1, (tellEpoch f epoch s).2) := by
  obtain ⟨learner, h, -⟩ := (s.trainer.heed (f.meanwhile epoch)).recordEpoch_eq epoch
  have hunder := (s.trainer.heed (f.meanwhile epoch)).recordEpoch_under
    (s.trainer.stopRequested || f.meanwhile epoch) true epoch
  change ((pausingNoted s).trainer.heed (f.meanwhile epoch)).recordEpoch epoch = _ at hunder
  rw [tellEpoch, tellEpoch, hunder]
  generalize (s.trainer.heed (f.meanwhile epoch)).recordEpoch epoch = recorded at h ⊢
  rcases recorded with ⟨⟨t', log⟩, fault | m⟩
  all_goals obtain rfl : t' = _ := h
  · rfl
  · have hbreak := hbreaks epoch
    simp only [pauseAfter, withBreaks, Bool.true_and] at hbreak
    simp [pausingNoted, withBreaks, under, heed, pauseAfter, hsync, hbreak]

theorem tellEpochs_withBreaks {s : Noted α} (hsync : s.trainer.pausing = false)
    (hbreaks : ∀ epoch, s.trainer.withBreaks.pauseAfter epoch = none) (left e : Nat) :
    tellEpochs f left e (pausingNoted s) =
      (pausingNoted (tellEpochs f left e s).1, (tellEpochs f left e s).2) := by
  refine throughEpochs_map (g := pausingNoted)
    (P := fun s : Noted α => s.trainer.pausing = false ∧
      ∀ epoch, s.trainer.withBreaks.pauseAfter epoch = none)
    (fun _ => rfl) (fun e s hs => tellEpoch_withBreaks hs.1 hs.2 e) (fun e s hs => ?_) left e
    ⟨hsync, hbreaks⟩
  obtain ⟨learner, history, stopRequested, h, -⟩ := tellEpoch_eq f e s
  rw [h]
  exact hs

/-- Breaks that do not fail change nothing but the time that a run takes. -/
theorem run_withBreaks_eq (hidle : t.running = false) (hsync : t.pausing = false)
    (hcount : t.config.epochCount = .ok n)
    (hbreaks : ∀ epoch, t.withBreaks.pauseAfter epoch = none) :
    t.withBreaks.run f = (pausingNoted (t.run f).1, (t.run f).2) := by
  have hepochs := tellEpochs_withBreaks (f := f) (s := ⟨t.begun, [t.begun.startNote], []⟩) hsync
    hbreaks n 1
  change tellEpochs f n 1 ⟨t.withBreaks.begun, [t.withBreaks.begun.startNote], []⟩ = _ at hepochs
  rw [run_eq hidle hcount, run_eq (t := t.withBreaks) hidle hcount, hepochs]
  generalize tellEpochs f n 1 ⟨t.begun, [t.begun.startNote], []⟩ = gone
  rcases gone with ⟨s, _ | fault⟩ <;> rfl

/-! ## What a run leaves -/

/-- What a run of `n` epochs comes to. If no epoch that is reached fails, and who follows only looks on
and asks for stops, then epochs are recorded up to the first that is asked to be the last; of each one
who follows is told once, and then of the whole. If an epoch fails, or who is told of it, the epochs
until then stay recorded, and nobody is told of the whole. With breaks, of which none fails, all of
that is the same. -/
theorem run_records (f : Follower α) (hidle : t.running = false) (hsync : t.pausing = false)
    (hcount : t.config.epochCount = .ok n) :
    ((∀ e < n, (∀ i < e, ¬ t.begun.AsksAt f i) → t.begun.PassesAt f e) →
      ∃ history, Completes t f history ∧
        (t.stopRequested = true → history.length = 0) ∧
        (t.stopRequested = false → ∀ e < n, t.begun.AsksAt f e →
          (∀ i < e, ¬ t.begun.AsksAt f i) → history.length = e + 1) ∧
        (t.stopRequested = false → (∀ e < n, ¬ t.begun.AsksAt f e) → history.length = n)) ∧
    (∀ e < n, ∀ fault, t.stopRequested = false →
      (∀ i < e, t.begun.PassesAt f i ∧ ¬ t.begun.AsksAt f i) → t.begun.FailsAt f e fault →
      ∃ history heard, Leaves t f history ∧ (t.run f).2 = .error fault ∧
        (t.run f).1.told = heard.map .epoch ∧ heard <+: history ∧ history.length ≤ e + 1 ∧
        heard.length = if (t.begun.epochAt e).isOk then e + 1 else e) ∧
    ((∀ epoch, t.withBreaks.pauseAfter epoch = none) →
      t.withBreaks.run f = (pausingNoted (t.run f).1, (t.run f).2)) := by
  refine ⟨fun hpasses => ?_, fun e he fault hstop hgoes hfails =>
    leaves_of_failsAt hidle hsync hcount hstop he hgoes hfails,
    run_withBreaks_eq hidle hsync hcount⟩
  cases hstop : t.stopRequested with
  | true =>
      -- nothing is gone through once a stop is asked for
      have hrun : tellEpochs f n 1 ⟨t.begun, [t.begun.startNote], []⟩ =
          (⟨t.begun.heed false, [t.begun.startNote], []⟩, none) := by
        rw [tellEpochs, throughEpochs_stopped (by exact hstop)]
        simp [heed]
      obtain ⟨hcompletes, hlength⟩ := completes_of_tellEpochs (e := 0) hidle hcount
        (fun i hi => absurd hi (Nat.not_lt_zero i)) ⟨_, _, hrun⟩
      exact ⟨_, hcompletes, fun _ => hlength, fun h => (by cases h), fun h => (by cases h)⟩
  | false =>
      by_cases hany : ∃ e, e < n ∧ t.begun.AsksAt f e
      · classical
        obtain ⟨he, hasks⟩ := Nat.find_spec hany
        have hbefore : ∀ i < Nat.find hany, ¬ t.begun.AsksAt f i := fun i hi hi' =>
          Nat.find_min hany hi ⟨by omega, hi'⟩
        have hpass : ∀ i ≤ Nat.find hany, t.begun.PassesAt f i := fun i hi =>
          hpasses i (by omega) fun j hj => hbefore j (by omega)
        obtain ⟨hcompletes, hlength⟩ := completes_of_tellEpochs hidle hcount
          (fun i hi => (hpass i (by omega)).imp fun _ hm => hm.1)
          (tellEpochs_asked (t := t.begun) _ rfl hsync hstop he
            (fun i hi => ⟨hpass i (by omega), hbefore i hi⟩) (hpass _ (Nat.le_refl _)) hasks)
        refine ⟨_, hcompletes, fun h => (by cases h), fun _ e he' hasks' hfirst => ?_,
          fun _ hnone => absurd hasks (hnone _ he)⟩
        have hle : Nat.find hany ≤ e := Nat.find_min' hany ⟨he', hasks'⟩
        have hge : ¬ Nat.find hany < e := fun hlt => hfirst _ hlt hasks
        omega
      · have hnone : ∀ e < n, ¬ t.begun.AsksAt f e := fun e he hasks => hany ⟨e, he, hasks⟩
        have hpass : ∀ e < n, t.begun.PassesAt f e := fun e he =>
          hpasses e he fun i hi => hnone i (by omega)
        obtain ⟨hcompletes, hlength⟩ := completes_of_tellEpochs hidle hcount
          (fun i hi => (hpass i hi).imp fun _ hm => hm.1)
          (tellEpochs_all (t := t.begun) _ rfl hsync hstop fun i hi => ⟨hpass i hi, hnone i hi⟩)
        exact ⟨_, hcompletes, fun h => (by cases h),
          fun _ e he hasks => absurd hasks (hnone e he), fun _ _ => hlength⟩

/-- Two dense layers side by side, of which the last one gives the output. -/
def pair : Graph :=
  let dense (id : String) : Node := ⟨id, "Dense", [(.text "units", .int 2)], .null, false, .null, []⟩
  { nodes := [dense "aside", dense "used"], connections := [] }

/-- Two samples of three figures, both of the second class. -/
def pairBatch : Batch Float :=
  ⟨.real (Tensor.filled [2, 3] 1), .whole (Tensor.filled [2] 1)⟩

/-- Three epochs. The learning rate does not decay. -/
def pairConfig : Value :=
  .dict [(.text "epochs", .int 3), (.text "optimizer", .text "sgd"), (.text "lr_decay", .int 1),
    (.text "lr_decay_every", .real 1)]

/-- A trainer of the two layers on the two samples. -/
def pairTrainer? : Option (Trainer Float) :=
  let input := TensorShape.batched [.size 3] .float32
  (compile Stock.catalog (.int 0) pair (some (.shape input))).1.toOption.bind fun m =>
    (build (some m) pairConfig (some (.fixed [pairBatch])) none none).1.toOption

theorem pairTrainer_ready : ∃ t, pairTrainer? = some t ∧ t.running = false ∧ t.pausing = false ∧
    t.stopRequested = false ∧ t.config.epochCount = .ok 3 ∧
    (∀ e < 3, ∃ m, t.begun.epochAt e = .ok m) ∧
    ∀ epoch, t.withBreaks.pauseAfter epoch = none := by
  have hrun : (pairTrainer?.map fun t => (t.running, t.pausing, t.stopRequested,
      t.config.epochCount.toOption, (List.range 3).all fun e => (t.begun.epochAt e).isOk,
      t.config.epochDelay.toFloat.isOk)) = some (false, false, false, some 3, true, true) := by
    decide +kernel
  obtain ⟨t, ht, hfacts⟩ := Option.map_eq_some_iff.mp hrun
  simp only [Prod.mk.injEq, List.all_eq_true, List.mem_range] at hfacts
  obtain ⟨hidle, hsync, hstop, hcount, hepochs, hdelay⟩ := hfacts
  refine ⟨t, ht, hidle, hsync, hstop, toOption_eq_some.mp hcount, fun e he => ?_, fun epoch => ?_⟩
  · have hok := hepochs e he
    cases hepoch : t.begun.epochAt e with
    | error fault =>
        rw [hepoch] at hok
        cases hok
    | ok m => exact ⟨m, rfl⟩
  · have hdelay' : t.withBreaks.config.epochDelay.toFloat.isOk = true := hdelay
    rw [pauseAfter]
    cases hfloat : t.withBreaks.config.epochDelay.toFloat with
    | error fault =>
        rw [hfloat] at hdelay'
        cases hdelay'
    | ok x => simp

/-- Asks for a stop during the second epoch. -/
def stopsInSecond : Follower Float := { Follower.nobody with meanwhile := fun epoch => epoch == 2 }

/-- Fails when told of an epoch. -/
def failsWhenTold : Follower Float :=
  { Follower.nobody with onEpoch := fun _ _ => ⟨false, some (.mishap .interrupted)⟩ }

theorem run_records_pair : ∃ t, pairTrainer? = some t ∧ t.running = false ∧ t.pausing = false ∧
    t.config.epochCount = .ok 3 ∧
    (∃ history, Completes t stopsInSecond history ∧ history.length = 2) ∧
    (∃ history heard, Leaves t failsWhenTold history ∧
      (t.run failsWhenTold).2 = .error (.mishap .interrupted) ∧
      (t.run failsWhenTold).1.told = heard.map .epoch ∧ heard <+: history ∧ heard.length = 1) ∧
    t.withBreaks.run stopsInSecond =
      (pausingNoted (t.run stopsInSecond).1, (t.run stopsInSecond).2) := by
  obtain ⟨t, ht, hidle, hsync, hstop, hcount, hepochs, hbreaks⟩ := pairTrainer_ready
  have hpasses : ∀ e < 3, t.begun.PassesAt stopsInSecond e := fun e he =>
    (hepochs e he).imp fun _ hm => ⟨hm, rfl⟩
  have hasks : ∀ e < 3, t.begun.AsksAt stopsInSecond e ↔ e = 1 := by
    intro e he
    obtain ⟨m, hm⟩ := hepochs e he
    simp [AsksAt, stopsInSecond, reactionAt, Follower.nobody]
  obtain ⟨hcompletes, -, hsame⟩ := run_records stopsInSecond hidle hsync hcount
  obtain ⟨history, hhistory, -, hlast, -⟩ := hcompletes fun e he _ => hpasses e he
  obtain ⟨-, hfails, -⟩ := run_records failsWhenTold hidle hsync hcount
  obtain ⟨m, hm⟩ := hepochs 0 (by decide)
  obtain ⟨kept, heard, hkept, hgiven, htold, hprefix, -, hlength⟩ := hfails 0 (by decide) _ hstop
    (fun i hi => absurd hi (Nat.not_lt_zero i)) (.inr ⟨m, hm, rfl⟩)
  rw [hm] at hlength
  refine ⟨t, ht, hidle, hsync, hcount, ⟨history, hhistory, ?_⟩,
    ⟨kept, heard, hkept, hgiven, htold, hprefix, hlength⟩, hsame hbreaks⟩
  exact hlast hstop 1 (by decide) ((hasks 1 (by decide)).mpr rfl) fun i hi hi' =>
    absurd ((hasks i (by omega)).mp hi') (by omega)

end BlockNet.Trainer
