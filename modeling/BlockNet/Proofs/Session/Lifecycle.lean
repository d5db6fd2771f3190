import BlockNet.Proofs.Fault.Training
import BlockNet.Proofs.Session.Exclusion

/-! # The life of a session

A session opens its gate to models and runs between being initialized and being given up. A run
needs a model and a dataset, what fails leaves both as they were, and a caller that is through with
its runs leaves none behind. -/

namespace BlockNet

open Relation World

variable {α : Type} {c : Nat} {s s' : Session α}

namespace Session

/-- Nothing is registered, so nothing is in training and there is nothing to stop. -/
structure Idle (s : Session α) : Prop where
  registered : s.registered = none
  training : s.isTraining = false
  stop : s.stopTraining = (s, false)

theorem idle_of_unregistered (h : s.registered = none) : s.Idle :=
  ⟨h, by rw [isTraining, h]; rfl, by rw [stopTraining, h]⟩

/-! ## The gate -/

theorem requireInitialized_shut (h : s.initialized = false) :
    s.requireInitialized = .error .sessionClosed := by
  simp [requireInitialized, h]

theorem requireInitialized_open (h : s.initialized = true) : s.requireInitialized = .ok () := by
  simp [requireInitialized, h]

theorem openRun_shut (h : s.initialized = false) (config : Value) (pausing : Bool) :
    s.openRun c config pausing = (s, .error .sessionClosed) := by
  rw [openRun, requireInitialized_shut h]

/-- Nothing keeps a run from being opened but faults of the work if there are a model and a
dataset. -/
theorem openRun_fails (h : s.initialized = true) {j : Nat} {d : DatasetSpec}
    (hmodel : s.current = some j) (hj : j < s.models.length) (hdataset : s.dataset = some d)
    (config : Value) (pausing : Bool) :
    FailsBy Fault.OfWork (s.openRun c config pausing).2 := by
  rw [openRun, requireInitialized_open h, hmodel, hdataset]
  dsimp only
  split
  · rename_i fault hfault
    rw [List.getElem?_eq_getElem hj] at hfault
    exact failsBy_error.mpr (Trainer.build_fails _ config none none none fault hfault)
  · split <;> simp

theorem openRun_unready (h : s.initialized = true) (hnone : s.current = none ∨ s.dataset = none)
    (config : Value) (pausing : Bool) :
    s.openRun c config pausing = (s, .error .nothingToTrain) := by
  rw [openRun, requireInitialized_open h]
  rcases hnone with hnone | hnone
  · rw [hnone]
  · rw [hnone]
    cases s.current <;> rfl

/-- A session that is set up as it was: initialized or not, with the same model and dataset. -/
structure SetUpLike (s s' : Session α) : Prop where
  initialized : s'.initialized = s.initialized
  model : s'.model? = s.model?
  dataset : s'.dataset = s.dataset

theorem startRun_setUpLike (s : Session α) (run : Nat) : SetUpLike s (s.startRun run).1 := by
  rw [startRun]
  split
  · exact ⟨rfl, rfl, rfl⟩
  · split <;> exact ⟨rfl, rfl, rfl⟩

variable [Scalar α]

/-- A run that is not opened leaves nothing but notes, and nobody who listens hears of it. -/
theorem train_refused {config : Value} {pausing : Bool} {fault : Fault} (hown : Own c s)
    (h : (s.openRun c config pausing).2 = .error fault) {τ : Type} (listener : Listener α τ)
    (mind : τ) :
    ∃ log, s.train c config pausing listener mind = ((s.note log, mind), .error fault) := by
  obtain ⟨log, hlog⟩ := openRun_error_eq hown (Prod.ext rfl h)
  have hopen : s.openRun c config pausing = (s.note log, .error fault) := Prod.ext hlog h
  exact ⟨log, by rw [train, hopen]⟩

theorem ask_error_setUpLike {a : Ask} {fault : Fault} (hown : Own c s)
    (h : (s.ask c a).2 = .error fault) : SetUpLike s (s.ask c a).1 := by
  obtain ⟨hturned, hmodels, -⟩ := ask_error_turned hown h
  exact ⟨hturned.initialized, by rw [model?, model?, hturned.current, hmodels], hturned.dataset⟩

theorem build_shut (h : s.initialized = false) (graph : Outcome Graph) (input : Option InputSpec) :
    s.build graph input = (s, .error .sessionClosed) := by
  rw [build, requireInitialized_shut h]

/-- Once a session is initialized, no build fails as if it were not, unless a graph does. -/
theorem build_pastGate (h : s.initialized = true) {graph : Outcome Graph}
    (hgraph : FailsBy Fault.PastGate graph) (input : Option InputSpec) :
    FailsBy Fault.PastGate (s.build graph input).2 := by
  rw [build, requireInitialized_open h]
  dsimp only
  split
  · exact failsBy_error.mpr (hgraph _ rfl)
  · rename_i g
    have hcompile := compile_fails (α := α) s.stopTraining.1.catalog s.stopTraining.1.seed g input
    split
    · rename_i fault log hfault
      exact failsBy_error.mpr (hcompile.pastGate fault (congrArg Prod.fst hfault))
    · simp

end Session

/-! ## A caller at its desk -/

namespace Desk

open Session

variable [Scalar α] {d : Desk α}

namespace Orderly

omit [Scalar α] in
theorem model_eq_none (h : d.Orderly c) : d.session.model? = none ↔ d.session.current = none := by
  rw [model?, Option.bind_eq_none_iff]
  constructor
  · intro hnone
    rw [Option.eq_none_iff_forall_ne_some]
    intro j hj
    have hlt := List.getElem?_eq_none_iff.mp (hnone j hj)
    exact absurd (h.current j hj) (Nat.not_lt.mpr hlt)
  · intro hnone j hj
    rw [hnone] at hj
    cases hj

omit [Scalar α] in
/-- A run is not opened for want of a model or a dataset, and for nothing else is it not ready. -/
theorem openRun_failsAs (h : d.Orderly c) (hready : d.session.initialized = true) (config : Value)
    (pausing : Bool) : FailsAs .notReady (d.session.openRun c config pausing).2 ↔
      d.session.model? = none ∨ d.session.dataset = none := by
  rw [h.model_eq_none]
  constructor
  · rintro ⟨fault, hfault, hkind⟩
    by_contra hboth
    obtain ⟨hmodel, hdataset⟩ := not_or.mp hboth
    obtain ⟨j, hj⟩ := Option.ne_none_iff_exists'.mp hmodel
    obtain ⟨spec, hspec⟩ := Option.ne_none_iff_exists'.mp hdataset
    have hwork := openRun_fails hready hj (h.current j hj) hspec config pausing fault hfault
    exact (fault.ofWork_iff.mp hwork).1 hkind
  · intro hnone
    rw [openRun_unready hready hnone]
    exact ⟨_, rfl, rfl⟩

omit [Scalar α] in
/-- Once a session is initialized, no run is refused as if it were not. -/
theorem openRun_pastGate (h : d.Orderly c) (hready : d.session.initialized = true) (config : Value)
    (pausing : Bool) : FailsBy Fault.PastGate (d.session.openRun c config pausing).2 := by
  by_cases hnone : d.session.current = none ∨ d.session.dataset = none
  · rw [openRun_unready hready hnone]
    simp [Fault.PastGate, Fault.nothingToTrain, Fault.kind]
  · obtain ⟨hmodel, hdataset⟩ := not_or.mp hnone
    obtain ⟨j, hj⟩ := Option.ne_none_iff_exists'.mp hmodel
    obtain ⟨spec, hspec⟩ := Option.ne_none_iff_exists'.mp hdataset
    exact (openRun_fails hready hj (h.current j hj) hspec config pausing).pastGate

omit [Scalar α] in
/-- A caller in the midst of nothing has left no run behind. -/
theorem idle (h : d.Orderly c) (hframes : d.frames = []) : d.session.Idle := by
  refine idle_of_unregistered (Option.eq_none_iff_forall_ne_some.mpr fun r hr => ?_)
  obtain ⟨f, rest, hstack, -⟩ := h.top r hr
  rw [hframes] at hstack
  cases hstack

end Orderly

/-- Models are built and runs opened exactly between the last time that the session was initialized
and the next that it is given up; a run needs a model and a dataset, and is refused without them
before it is registered. What fails leaves the session set up as it was. And a caller that is through
with its runs, however they ended and whatever was asked meanwhile, leaves none behind. -/
theorem Reachable.lifecycle {catalog : Catalog} {seed : Value}
    (h : Reachable c catalog seed d) :
    d.session.initialized = Ask.ready d.asked ∧
    (∀ graph input,
      (Ask.ready d.asked = false → FailsAs .notInitialized (d.session.build graph input).2) ∧
      (FailsAs .notInitialized (d.session.build graph input).2 →
        Ask.ready d.asked = false ∨ FailsAs .notInitialized graph)) ∧
    (∀ nodes edges, ¬FailsAs .notInitialized (Graph.ofValues nodes edges)) ∧
    (∀ (τ : Type) (listener : Session.Listener α τ) config pausing mind,
      (Ask.ready d.asked = false →
        FailsAs .notInitialized (d.session.train c config pausing listener mind).2) ∧
      (FailsAs .notInitialized (d.session.train c config pausing listener mind).2 →
        Ask.ready d.asked = false ∨
          ∃ metrics heard, ∃ fault ∈ (listener metrics heard).2, fault.kind = .notInitialized)) ∧
    (Ask.ready d.asked = true → ∀ config pausing,
      (FailsAs .notReady (d.session.openRun c config pausing).2 ↔
        d.session.model? = none ∨ d.session.dataset = none)) ∧
    (∀ config pausing run, (d.session.openRun c config pausing).2 = .ok run →
      (d.session.openRun c config pausing).1.registered = some ⟨run, c⟩) ∧
    (∀ (τ : Type) (listener : Session.Listener α τ) config pausing mind fault,
      (d.session.openRun c config pausing).2 = .error fault →
        (d.session.train c config pausing listener mind).2 = .error fault ∧
          (d.session.train c config pausing listener mind).1.1.registered = d.session.registered ∧
            (d.session.train c config pausing listener mind).1.1.runs = d.session.runs) ∧
    (∀ a fault, (d.session.ask c a).2 = .error fault →
      SetUpLike d.session (d.session.ask c a).1) ∧
    (∀ run, SetUpLike d.session (d.session.startRun run).1) ∧
    (d.frames = [] → d.session.Idle ∧
      ∀ (τ : Type) (listener : Session.Listener α τ) config pausing mind,
        (∀ metrics heard, Serves c heard.1 (listener metrics heard).1.1) →
          (d.session.train c config pausing listener mind).1.1.Idle) := by
  have horderly := h.orderly
  have hready := horderly.initialized
  refine ⟨hready, fun graph input => ?_, fun nodes edges => ?_,
    fun τ listener config pausing mind => ?_, fun hopen config pausing => ?_,
    fun config pausing run hopened => (openRun_turned (Prod.ext rfl hopened)).2,
    fun τ listener config pausing mind fault hfault => ?_,
    fun a fault => ask_error_setUpLike horderly.own, d.session.startRun_setUpLike,
    fun hframes => ?_⟩
  · rw [← hready]
    refine ⟨fun hshut => ?_, fun hfails => ?_⟩
    · rw [build_shut hshut]
      exact ⟨_, rfl, rfl⟩
    · by_contra hboth
      obtain ⟨hopen, hgraph⟩ := not_or.mp hboth
      have hbuilt := build_pastGate (Bool.of_not_eq_false hopen) (not_failsAs.mp hgraph) input
      exact not_failsAs.mpr hbuilt hfails
  · exact not_failsAs.mpr (Graph.ofValues_fails nodes edges).pastGate
  · rw [← hready]
    refine ⟨fun hshut => ?_, fun hfails => ?_⟩
    · rw [train, openRun_shut hshut]
      exact ⟨_, rfl, rfl⟩
    · by_contra hboth
      obtain ⟨hopen, hheard⟩ := not_or.mp hboth
      have hopened := horderly.openRun_pastGate (Bool.of_not_eq_false hopen) config pausing
      have htrained := train_fails _ mind
        (fun m h fault hfault hkind => hheard ⟨m, h, fault, hfault, hkind⟩) hopened
      exact not_failsAs.mpr htrained hfails
  · exact horderly.openRun_failsAs (hready.trans hopen) config pausing
  · obtain ⟨log, htrain⟩ := train_refused horderly.own hfault listener mind
    rw [htrain]
    exact ⟨rfl, rfl, rfl⟩
  · refine ⟨horderly.idle hframes, fun τ listener config pausing mind hlistener => ?_⟩
    have hfree : Free ([] : List (Frame α)) := by rintro _ ⟨⟩
    obtain ⟨more, hsteps⟩ := train_serves hlistener d.session config pausing mind [] d.asked hfree
    rw [← hframes] at hsteps
    exact (Reachable.orderly (h.trans hsteps)).idle hframes

/-- A caller that is ready opens a run. Whoever listens to it starts another one, and when both are
through none is left. -/
theorem lifecycle_nested : ∃ asked, Ask.ready asked = true ∧
    Reachable 1 Stock.catalog (.int 0) ⟨readySession, [], asked⟩ ∧
      ¬FailsAs .notReady (readySession.openRun 1 nestedConfig false).2 ∧
      (readySession.train 1 nestedConfig false
        (follow (performPlan 1 [(.int 1, .train nestedConfig false [])])) ⟨[], []⟩).1.1.Idle := by
  have hserves : Serves 1 (Session.fresh Stock.catalog (.int 0)) readySession :=
    ((perform_serves 1 .prepare _).trans (perform_serves 1 (.build (.ok nestedGraph) none) _)).trans
      (perform_serves 1 (.load (.text "iris")) _)
  obtain ⟨more, hsteps⟩ := hserves [] [] (by rintro _ ⟨⟩)
  have hreachable : Reachable 1 Stock.catalog (.int 0) ⟨readySession, [], more ++ []⟩ := hsteps
  obtain ⟨hready, -, -, -, hmissing, -, -, -, -, hidle⟩ := hreachable.lifecycle
  have hset : readySession.initialized = true ∧ readySession.model?.isSome = true ∧
      readySession.dataset.isSome = true := by decide +kernel
  obtain ⟨hopen, hmodel, hdataset⟩ := hset
  refine ⟨_, hready.symm.trans hopen, hreachable, fun hfails => ?_, ?_⟩
  · rcases (hmissing (hready.symm.trans hopen) _ _).mp hfails with hnone | hnone
    · rw [hnone] at hmodel
      cases hmodel
    · rw [hnone] at hdataset
      cases hdataset
  · obtain ⟨-, htrained⟩ := hidle rfl
    exact htrained _ _ _ _ _ (follow_serves 1 _)

end Desk

end BlockNet
