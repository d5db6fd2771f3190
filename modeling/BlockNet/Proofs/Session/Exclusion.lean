import BlockNet.Proofs.Session.Sound
import BlockNet.Proofs.Session.Turns
import BlockNet.Catalog.Stock

/-! # One run at a time

However many callers there are and however their turns fall, at most one running run goes on to
another epoch: the one that is registered. It gives up the register when it is finished, or to a run
that its own caller starts meanwhile. -/

namespace BlockNet

variable {α : Type} {c : Nat} {w w' : World α}

/-- The run that a frame is about to take off the register. -/
def Frame.ends? : Frame α → Option Nat
  | evicting _ run | closing run => some run
  | _ => none

namespace World

/-- A run that can begin another epoch. -/
def GoesOn (w : World α) (run : Nat) : Prop :=
  ∃ t, w.session.trainer? run = some t ∧ t.running = true ∧ t.stopRequested = false

theorem Sound.asked_of_running (hw : Sound w) {run : Nat} {t : Trainer α}
    (ht : w.session.trainer? run = some t) (hrunning : t.running = true)
    (hother : ∀ r, w.session.registered = some r → r.run ≠ run) : t.stopRequested = true := by
  have hstage : w.session.stage? run = some (true, t.finished) := by
    rw [Session.stage?, ht, Option.map_some, hrunning]
  cases hfinished : t.finished with
  | true =>
      rw [hfinished] at hstage
      exact absurd hstage (hw.safe.halted run)
  | false =>
      rw [hfinished] at hstage
      have hasked := hw.safe.flagged run true hstage hother
      rwa [Session.stopAsked, ht] at hasked

theorem Sound.registered_of_goesOn (hw : Sound w) {run : Nat} (h : w.GoesOn run) :
    ∃ r, w.session.registered = some r ∧ r.run = run := by
  obtain ⟨t, ht, hrunning, hgo⟩ := h
  by_contra hnone
  have hasked := hw.asked_of_running ht hrunning fun r hr hrun => hnone ⟨r, hr, hrun⟩
  rw [hgo] at hasked
  cases hasked

theorem Sound.goesOn_unique (hw : Sound w) {run run' : Nat} (h : w.GoesOn run)
    (h' : w.GoesOn run') : run = run' := by
  obtain ⟨r, hr, rfl⟩ := hw.registered_of_goesOn h
  obtain ⟨r', hr', rfl⟩ := hw.registered_of_goesOn h'
  rw [Option.some.inj (hr.symm.trans hr')]

theorem Sound.goesOn_of_looping (hw : Sound w) {run left epoch : Nat} {rest : List (Frame α)}
    (hstack : w.frames c = .looping run (left + 1) epoch :: rest)
    (hgo : w.session.stopAsked run = false) : w.GoesOn run := by
  have hstage : w.session.stage? run = some (true, false) :=
    hw.fits c (.looping run (left + 1) epoch) (hstack ▸ List.mem_cons_self)
  obtain ⟨t, ht, hrunning⟩ := Option.map_eq_some_iff.mp hstage
  rw [Session.stopAsked, ht] at hgo
  exact ⟨t, ht, congrArg Prod.fst hrunning, hgo⟩

variable [Scalar α]

/-- What a step does to the register: nothing, or a caller at the register puts its run in the place
of none or of one of its own, or a caller takes a finished run off. -/
theorem Step.register (hw : Sound w) (h : Step c w w') :
    w'.session.registered = w.session.registered ∨
    (∃ run, w'.session.registered = some ⟨run, c⟩ ∧
      (∀ r, w.session.registered = some r → r.caller = c ∧ w'.session.stopAsked r.run = true) ∧
      ∃ q rest, w.frames c = .knocking q :: rest) ∨
    ∃ f rest run, w.frames c = f :: rest ∧ f.ends? = some run ∧
      w.session.stage? run = some (false, true) ∧
      w'.session = w.session.unregister run := by
  cases h with
  | @turn f rest s' g hstack h =>
      have hfits : f.Fits w.session c := hw.fits c f (hstack ▸ List.mem_cons_self)
      cases h with
      | @enter q s' run h =>
          have hs := Session.register_entered h
          refine .inr (.inl ⟨run, hs.registered, fun r hr => ⟨hs.own r hr, ?_⟩, q, rest, hstack⟩)
          exact hs.stopped r hr (hw.safe.listed r hr)
      | evict => exact .inr (.inr ⟨_, rest, _, hstack, rfl, hfits.2, rfl⟩)
      | close => exact .inr (.inr ⟨_, rest, _, hstack, rfl, hfits, rfl⟩)
      | ask => exact .inl (Session.pressRun_steady _ _).registered
      | start h | startFault h =>
          exact .inl (congrArg (·.1.registered) h ▸ Session.startRun_registered _ _)
      | epoch _ h | epochFault _ h =>
          exact .inl (congrArg (·.1.registered) h ▸ (Session.recordEpoch_steady _ _ _).registered)
      | _ => exact .inl rfl
  | call => exact .inl rfl
  | act _ _ hregistered => exact .inl hregistered

/-- A caller registers a run only if no other caller's run is registered. -/
theorem Step.registers (hw : Sound w) (h : Step c w w') {r' : Registration}
    (hr' : w'.session.registered = some r') (hne : w.session.registered ≠ some r') :
    r'.caller = c ∧ ∀ r, w.session.registered = some r →
      r.caller = c ∧ w'.session.stopAsked r.run = true := by
  obtain hsame | ⟨run, hentered, hown, -⟩ | ⟨_, _, run, -, -, -, hended⟩ := h.register hw
  · exact absurd (hsame ▸ hr') hne
  · obtain rfl := Option.some.inj (hentered.symm.trans hr')
    exact ⟨rfl, hown⟩
  · rw [hended, Session.unregister_registered] at hr'
    exact absurd hr'.1 hne

/-- A run that leaves the register to none is finished. -/
theorem Step.leaves (hw : Sound w) (h : Step c w w') {r : Registration}
    (hr : w.session.registered = some r) (hnone : w'.session.registered = none) :
    ∃ t, w.session.trainer? r.run = some t ∧ t.running = false ∧ t.finished = true := by
  obtain hsame | ⟨run, hentered, -⟩ | ⟨_, _, run, -, -, hstage, hended⟩ := h.register hw
  · rw [hsame, hr] at hnone
    cases hnone
  · rw [hentered] at hnone
    cases hnone
  · have hrun : r.run = run := by
      by_contra hne
      have hkept := (w.session.unregister_registered run).mpr ⟨hr, hne⟩
      rw [← hended, hnone] at hkept
      cases hkept
    obtain ⟨t, ht, hflags⟩ := Option.map_eq_some_iff.mp hstage
    exact ⟨t, hrun ▸ ht, congrArg Prod.fst hflags, congrArg Prod.snd hflags⟩

/-- A caller that ends a run leaves every other one registered. -/
theorem Step.stays (hw : Sound w) (h : Step c w w') {f : Frame α} {rest : List (Frame α)}
    {run : Nat} (hstack : w.frames c = f :: rest) (hends : f.ends? = some run) {r : Registration}
    (hr : w.session.registered = some r) (hne : r.run ≠ run) :
    w'.session.registered = some r := by
  obtain hsame | ⟨_, -, -, q, _, hknocks⟩ | ⟨f', _, run', hstack', hends', -, hended⟩ :=
    h.register hw
  · rw [hsame, hr]
  · obtain ⟨rfl, -⟩ := List.cons.inj (hstack.symm.trans hknocks)
    cases hends
  · obtain ⟨rfl, -⟩ := List.cons.inj (hstack.symm.trans hstack')
    obtain rfl := Option.some.inj (hends.symm.trans hends')
    rw [hended, Session.unregister_registered]
    exact ⟨hr, hne⟩

/-- At most one running run goes on, every other one has been asked to stop; a caller registers a
run only if no other caller's run is registered; and only the registered run itself is taken off the
register, once it is finished. -/
theorem Reachable.exclusive {catalog : Catalog} {seed : Value} (h : Reachable catalog seed w) :
    (∀ run t, w.session.trainer? run = some t → t.running = true →
      (∀ r, w.session.registered = some r → r.run ≠ run) → t.stopRequested = true) ∧
    (∀ run run', w.GoesOn run → w.GoesOn run' → run = run') ∧
    (∀ c run left epoch rest, w.frames c = .looping run (left + 1) epoch :: rest →
      w.session.stopAsked run = false → w.GoesOn run) ∧
    ∀ c w', Step c w w' →
      (∀ r', w'.session.registered = some r' → w.session.registered ≠ some r' →
        r'.caller = c ∧ ∀ r, w.session.registered = some r →
          r.caller = c ∧ w'.session.stopAsked r.run = true) ∧
      (∀ r, w.session.registered = some r → w'.session.registered = none →
        ∃ t, w.session.trainer? r.run = some t ∧ t.running = false ∧ t.finished = true) ∧
      ∀ f rest run, w.frames c = f :: rest → f.ends? = some run →
        ∀ r, w.session.registered = some r → r.run ≠ run →
          w'.session.registered = some r := by
  have hw := h.sound
  refine ⟨fun run t => hw.asked_of_running, fun run run' => hw.goesOn_unique,
    fun c run left epoch rest => hw.goesOn_of_looping, fun c w' hstep => ?_⟩
  refine ⟨fun r' => hstep.registers hw, fun r => hstep.leaves hw, ?_⟩
  exact fun f rest run hstack hends r hr hne => hstep.stays hw hstack hends hr hne

end World

/-! ## A run started by who listens to another one -/

namespace Session

/-- Three classes of flowers told apart. -/
def nestedGraph : Graph :=
  { nodes := [⟨"data", "DataLoader", [(.text "dataset", .text "iris")], .null, false, .null, []⟩,
      ⟨"classes", "Dense", [(.text "units", .int 3)], .null, false, .null, []⟩]
    connections :=
      [⟨.null, "data", .text "data", "classes", .text "input", .null, .null, []⟩] }

/-- Two epochs of one sample. -/
def nestedConfig : Value :=
  .dict [(.text "epochs", .int 2), (.text "batchSize", .real 1), (.text "batchesPerEpoch", .int 1),
    (.text "validationBatches", .int 0), (.text "lrDecay", .int 1),
    (.text "lrDecayEvery", .real 10), (.text "lossFunction", .text "mse"),
    (.text "optimizer", .text "sgd")]

/-- The session of a caller that is ready to train. -/
def readySession : Session Float :=
  (perform 1 (.load (.text "iris"))
    (perform 1 (.build (.ok nestedGraph) none)
      (perform 1 .prepare (fresh Stock.catalog (.int 0))).1).1).1

def openedSession : Session Float := (readySession.openRun 1 nestedConfig false).1

def startedSession : Session Float := (openedSession.startRun 0).1

/-- An epoch of the first run has been recorded. -/
def toldSession : Session Float := (startedSession.recordEpoch 0 1).1

def nestedSession : Session Float := (toldSession.openRun 1 nestedConfig false).1

/-- The second run has been started before the first one is finished. -/
def bothSession : Session Float := (nestedSession.startRun 1).1

theorem nested_outcomes :
    (readySession.openRun 1 nestedConfig false).2.toOption = some 0 ∧
      (openedSession.startRun 0).2.toOption = some 2 ∧ startedSession.stopAsked 0 = false ∧
      (startedSession.recordEpoch 0 1).2.toOption.isSome = true ∧
      (toldSession.openRun 1 nestedConfig false).2.toOption = some 1 ∧
      (nestedSession.startRun 1).2.toOption = some 2 ∧
      bothSession.stage? 0 = some (true, false) ∧ bothSession.stage? 1 = some (true, false) ∧
      bothSession.registered = some ⟨1, 1⟩ ∧ bothSession.stopAsked 1 = false := by
  decide +kernel

end Session

namespace World

open Relation Session

/-- The first run has told of its epoch, and who listens has started the second one. -/
def nestedWorld : World Float :=
  ⟨bothSession, Function.update (fun _ => []) 1 [.looping 1 2 1, .told 0 1 2]⟩

theorem nestedWorld_reachable : Reachable Stock.catalog (.int 0) nestedWorld := by
  obtain ⟨hopen, hstart, hgo, hepoch, hnested, hboth, -⟩ := nested_outcomes
  obtain ⟨metrics, hepoch⟩ := Option.isSome_iff_exists.mp hepoch
  have hopen : readySession.openRun 1 nestedConfig false = (openedSession, .ok 0) :=
    Prod.ext rfl (toOption_eq_some.mp hopen)
  have hstart : openedSession.startRun 0 = (startedSession, .ok 2) :=
    Prod.ext rfl (toOption_eq_some.mp hstart)
  have hepoch : startedSession.recordEpoch 0 1 = (toldSession, .ok metrics) :=
    Prod.ext rfl (toOption_eq_some.mp hepoch)
  have hnested : toldSession.openRun 1 nestedConfig false = (nestedSession, .ok 1) :=
    Prod.ext rfl (toOption_eq_some.mp hnested)
  have hboth : nestedSession.startRun 1 = (bothSession, .ok 2) :=
    Prod.ext rfl (toOption_eq_some.mp hboth)
  let idle : Nat → List (Frame Float) := fun _ => []
  have hidle : Free (idle 1) := by rintro _ ⟨⟩
  have hown : Own 1 (Session.fresh (α := Float) Stock.catalog (.int 0)) := by rintro _ ⟨⟩
  have hready : ReflTransGen (Step 1) (fresh Stock.catalog (.int 0)) ⟨readySession, idle⟩ :=
    (((perform_plays 1 .prepare _).trans (perform_plays 1 (.build (.ok nestedGraph) none) _)).trans
      (perform_plays 1 (.load (.text "iris")) _)).steps hown idle hidle
  have hopened : ReflTransGen (Step 1) ⟨readySession, idle⟩
      ⟨openedSession, Function.update idle 1 [.opened 0]⟩ :=
    openRun_steps hopen hidle
  have hstarted : Step 1 ⟨openedSession, Function.update idle 1 [.opened 0]⟩
      ⟨startedSession, Function.update idle 1 [.looping 0 2 1]⟩ := .top (.start hstart)
  have htold : Step 1 ⟨startedSession, Function.update idle 1 [.looping 0 2 1]⟩
      ⟨toldSession, Function.update idle 1 [.told 0 1 2]⟩ := .top (.epoch hgo hepoch)
  have hopened' : ReflTransGen (Step 1) ⟨toldSession, Function.update idle 1 [.told 0 1 2]⟩
      ⟨nestedSession, Function.update idle 1 [.opened 1, .told 0 1 2]⟩ := by
    have hfree : Free (Function.update idle 1 [.told 0 1 2] 1) := by
      rw [Function.update_self]
      rintro f ⟨⟩
      trivial
    have hsteps := openRun_steps hnested hfree
    rwa [Function.update_self, Function.update_idem] at hsteps
  have hboth' : Step 1 ⟨nestedSession, Function.update idle 1 [.opened 1, .told 0 1 2]⟩
      nestedWorld := .top (.start hboth)
  have hsteps := ((((hready.trans hopened).tail hstarted).tail htold).trans hopened').tail hboth'
  exact hsteps.lift id fun _ _ h => ⟨1, h⟩

/-- Both runs are running, and only the second one goes on. -/
theorem exclusive_nested :
    Reachable Stock.catalog (.int 0) nestedWorld ∧ nestedWorld.GoesOn 1 ∧
      (∃ t, nestedWorld.session.trainer? 0 = some t ∧ t.running = true ∧
        t.stopRequested = true) ∧
      ∀ run, nestedWorld.GoesOn run → run = 1 := by
  obtain ⟨-, -, -, -, -, -, hfirst, hsecond, hregistered, hgo⟩ := nested_outcomes
  obtain ⟨hasked, hone, -⟩ := nestedWorld_reachable.exclusive
  obtain ⟨t, ht, hrunning⟩ := Option.map_eq_some_iff.mp hfirst
  obtain ⟨t', ht', hrunning'⟩ := Option.map_eq_some_iff.mp hsecond
  have hgoes : nestedWorld.GoesOn 1 := by
    rw [Session.stopAsked, ht'] at hgo
    exact ⟨t', ht', congrArg Prod.fst hrunning', hgo⟩
  refine ⟨nestedWorld_reachable, hgoes, ⟨t, ht, congrArg Prod.fst hrunning, ?_⟩,
    fun run hrun => hone run 1 hrun hgoes⟩
  refine hasked 0 t ht (congrArg Prod.fst hrunning) fun r hr => ?_
  obtain rfl := Option.some.inj (hregistered.symm.trans hr)
  decide

end World

end BlockNet
