import BlockNet.Proofs.Session.History
import BlockNet.Proofs.Session.World

/-! # One caller at work

A single caller asks one thing after another of a session. While a run of it waits for whoever
listens, after an epoch and at the end, more may be asked, and with it further runs be opened inside
of that one. A desk is the session, what the caller is in the midst of, and what has been asked. -/

namespace BlockNet

open Relation World

/-- What a caller asks of a session. -/
inductive Ask where
  | prepare
  | dispose
  | stop
  | build (graph : Outcome Graph) (input : Option InputSpec)
  | load (name : Value)
  | train (config : Value) (pausing : Bool)

variable {α : Type} [Scalar α]

/-- What a session comes to when it is asked: a fault, a run that has been opened, or neither. -/
def Session.ask (s : Session α) (c : Nat) : Ask → Session α × Outcome (Option Nat)
  | .prepare => (s.prepare.1, .ok none)
  | .dispose => (s.dispose, .ok none)
  | .stop => (s.stopTraining.1, .ok none)
  | .build graph input => ((s.build graph input).1, (s.build graph input).2.map fun _ => none)
  | .load name => ((s.loadDataset name).1, .ok none)
  | .train config pausing =>
      ((s.openRun c config pausing).1, (s.openRun c config pausing).2.map some)

/-- A session, what its caller is in the midst of, and what has been asked, each the latest first. -/
structure Desk (α : Type) where
  session : Session α
  frames : List (Frame α)
  asked : List Ask

namespace Desk

/-- The desk after something was asked. -/
def answer (d : Desk α) (c : Nat) (a : Ask) : Desk α where
  session := (d.session.ask c a).1
  frames :=
    match (d.session.ask c a).2 with
    | .ok (some run) => .opened run :: d.frames
    | _ => d.frames
  asked := a :: d.asked

/-- A step of the caller: it asks, if it is free to, or the latest run has a turn. -/
inductive Step (c : Nat) : Desk α → Desk α → Prop
  | ask {d} (a : Ask) (hfree : Free d.frames) : Step c d (d.answer c a)
  | turn {d f rest run s' g} (hstack : d.frames = f :: rest) (hrun : f.run? = some run)
      (h : d.session.Turn c f s' g) : Step c d ⟨s', g.toList ++ rest, d.asked⟩

/-- A session that nothing has happened in, and nothing asked of it. -/
def fresh (catalog : Catalog) (seed : Value) : Desk α := ⟨Session.fresh catalog seed, [], []⟩

/-- A desk that the caller can come to. -/
def Reachable (c : Nat) (catalog : Catalog) (seed : Value) (d : Desk α) : Prop :=
  ReflTransGen (Step c) (fresh catalog seed) d

end Desk

/-! ## Commands as steps -/

variable {c : Nat} {s s' s'' : Session α}

/-- A turn of the run on top. -/
theorem Desk.Step.top {f : Frame α} {g : Option (Frame α)} {run : Nat} {rest : List (Frame α)}
    {asked : List Ask} (h : s.Turn c f s' g) (hrun : f.run? = some run) :
    Step c ⟨s, f :: rest, asked⟩ ⟨s', g.toList ++ rest, asked⟩ :=
  .turn (d := ⟨s, f :: rest, asked⟩) rfl hrun h

namespace Session

/-- A free caller brings a session to another one, and is in the midst of the same then. -/
def Serves (c : Nat) (s s' : Session α) : Prop :=
  ∀ frames asked, Free frames → ∃ more : List Ask,
    ReflTransGen (Desk.Step c) ⟨s, frames, asked⟩ ⟨s', frames, more ++ asked⟩

theorem Serves.refl (s : Session α) : Serves c s s := fun _ _ _ => ⟨[], .refl⟩

theorem Serves.trans (h : Serves c s s') (h' : Serves c s' s'') : Serves c s s'' := by
  intro frames asked hfree
  obtain ⟨more, hmore⟩ := h frames asked hfree
  obtain ⟨later, hlater⟩ := h' frames (more ++ asked) hfree
  rw [← List.append_assoc] at hlater
  exact ⟨later ++ more, hmore.trans hlater⟩

/-- Something is asked that opens no run. -/
theorem Serves.ask (a : Ask) (h : ∀ run, (s.ask c a).2 ≠ .ok (some run)) :
    Serves c s (s.ask c a).1 := by
  intro frames asked hfree
  have hstep : Desk.Step c ⟨s, frames, asked⟩ (Desk.answer ⟨s, frames, asked⟩ c a) :=
    .ask (d := ⟨s, frames, asked⟩) a hfree
  have hanswer : Desk.answer ⟨s, frames, asked⟩ c a = ⟨(s.ask c a).1, frames, a :: asked⟩ := by
    rw [Desk.answer]
    dsimp only
    split
    · rename_i run hopen
      exact absurd hopen (h run)
    · rfl
  exact ⟨[a], .single (hanswer ▸ hstep)⟩

/-- A caller opens a run. -/
theorem openRun_step {config : Value} {pausing : Bool} {run : Nat}
    (h : s.openRun c config pausing = (s', .ok run)) {frames : List (Frame α)} (asked : List Ask)
    (hfree : Free frames) : Desk.Step c ⟨s, frames, asked⟩
      ⟨s', .opened run :: frames, .train config pausing :: asked⟩ := by
  have hstep : Desk.Step c ⟨s, frames, asked⟩
      (Desk.answer ⟨s, frames, asked⟩ c (.train config pausing)) :=
    .ask (d := ⟨s, frames, asked⟩) _ hfree
  rw [Desk.answer, ask, h] at hstep
  exact hstep

/-- A run that has failed ends. -/
theorem endRun_failed (s : Session α) (run : Nat) (rest : List (Frame α)) (asked : List Ask) :
    ReflTransGen (Desk.Step c) ⟨s, .failing run :: rest, asked⟩
      ⟨s.endRun run false, rest, asked⟩ := by
  have hfail : Desk.Step c ⟨s, .failing run :: rest, asked⟩
      ⟨s.finishRun run false, .closing run :: rest, asked⟩ := .top .fail rfl
  exact (ReflTransGen.single hfail).tail (.top .close rfl)

/-- A run that is through ends. -/
theorem endRun_completed {run left epoch : Nat} (h : left = 0 ∨ s.stopAsked run = true)
    (rest : List (Frame α)) (asked : List Ask) :
    ReflTransGen (Desk.Step c) ⟨s, .looping run left epoch :: rest, asked⟩
      ⟨s.endRun run true, rest, asked⟩ := by
  have hfinish : Desk.Step c ⟨s, .looping run left epoch :: rest, asked⟩
      ⟨s.finishRun run true, .completing run :: rest, asked⟩ := .top (.finish h) rfl
  have hcompleted : Desk.Step c ⟨s.finishRun run true, .completing run :: rest, asked⟩
      ⟨s.finishRun run true, .closing run :: rest, asked⟩ := .top .completed rfl
  exact ((ReflTransGen.single hfinish).tail hcompleted).tail (.top .close rfl)

variable {τ : Type} {listener : Listener α τ}

/-- A caller takes its run through epochs: to a failure, or until it may end. -/
theorem throughEpochs_steps (hlistener : ∀ m h, Serves c h.1 (listener m h).1.1) (run : Nat)
    {left epoch : Nat} {h h' : Heard α τ} {fault : Option Fault}
    (hrun : throughEpochs (fun h => stopAsked h.1 run) (tellEpoch run listener) left epoch h =
      (h', fault)) (rest : List (Frame α)) (asked : List Ask) :
    ∃ f more, ReflTransGen (Desk.Step c) ⟨h.1, .looping run left epoch :: rest, asked⟩
        ⟨h'.1, f :: rest, more ++ asked⟩ ∧
      (fault ≠ none → f = .failing run) ∧
      (fault = none → ∃ left epoch, f = .looping run left epoch ∧
        (left = 0 ∨ h'.1.stopAsked run = true)) := by
  -- the session that an epoch ends in is the one that whoever listens has left
  induction left generalizing epoch h asked with
  | zero =>
      obtain ⟨rfl, rfl⟩ := Prod.mk.inj hrun
      exact ⟨_, [], .refl, fun h => absurd rfl h, fun _ => ⟨0, epoch, rfl, .inl rfl⟩⟩
  | succ left ih =>
      rw [throughEpochs] at hrun
      split at hrun
      · rename_i hasked
        obtain ⟨rfl, rfl⟩ := Prod.mk.inj hrun
        exact ⟨_, [], .refl, fun h => absurd rfl h, fun _ => ⟨left + 1, epoch, rfl, .inr hasked⟩⟩
      · rename_i hgo
        have hgo := Bool.eq_false_iff.mpr hgo
        rw [tellEpoch] at hrun
        cases hrecord : h.1.recordEpoch run epoch with
        | mk s₁ result =>
            rw [hrecord] at hrun
            cases result with
            | error fault' =>
                obtain ⟨rfl, rfl⟩ := Prod.mk.inj hrun
                have hstep : Desk.Step c ⟨h.1, .looping run (left + 1) epoch :: rest, asked⟩
                    ⟨s₁, .failing run :: rest, asked⟩ := .top (.epochFault hgo hrecord) rfl
                exact ⟨_, [], .single hstep, fun _ => rfl, by rintro ⟨⟩⟩
            | ok metrics =>
                have hepoch : Desk.Step c ⟨h.1, .looping run (left + 1) epoch :: rest, asked⟩
                    ⟨s₁, .told run left (epoch + 1) :: rest, asked⟩ := .top (.epoch hgo hrecord) rfl
                -- whoever listens is served while the run waits for it
                have hfree : Free (.told run left (epoch + 1) :: rest : List (Frame α)) := by
                  rintro f ⟨⟩
                  trivial
                obtain ⟨more, hmore⟩ := hlistener metrics (s₁, h.2) _ asked hfree
                have hheard := (ReflTransGen.single hepoch).trans hmore
                dsimp only at hrun
                split at hrun
                · rename_i hfault
                  obtain ⟨rfl, rfl⟩ := Prod.mk.inj hrun
                  obtain ⟨rfl, -⟩ := Prod.mk.inj hfault
                  exact ⟨_, more, hheard.tail (.top .raise rfl), fun _ => rfl, by rintro ⟨⟩⟩
                · rename_i hfault
                  obtain ⟨rfl, -⟩ := Prod.mk.inj hfault
                  obtain ⟨f, later, hsteps, hends⟩ := ih hrun (more ++ asked)
                  rw [← List.append_assoc] at hsteps
                  exact ⟨f, later ++ more, (hheard.tail (.top .goOn rfl)).trans hsteps, hends⟩

/-- A caller trains a run from its opening to its end. -/
theorem train_serves (hlistener : ∀ m h, Serves c h.1 (listener m h).1.1) (s : Session α)
    (config : Value) (pausing : Bool) (mind : τ) :
    Serves c s (s.train c config pausing listener mind).1.1 := by
  rw [train]
  split
  · rename_i refused fault hopen
    have hask : s.ask c (.train config pausing) = (refused, .error fault) := by
      rw [ask, hopen]
      rfl
    have hserves : Serves c s (s.ask c (.train config pausing)).1 := by
      refine .ask _ fun run hrun => ?_
      rw [hask] at hrun
      cases hrun
    rwa [hask] at hserves
  · rename_i opened run hopen
    intro frames asked hfree
    have hopened := openRun_step hopen asked hfree
    split
    · rename_i started fault hstart
      have hfault : Desk.Step c ⟨opened, .opened run :: frames, .train config pausing :: asked⟩
          ⟨started, .failing run :: frames, .train config pausing :: asked⟩ :=
        .top (.startFault hstart) rfl
      exact ⟨[_], ((ReflTransGen.single hopened).tail hfault).trans
        (endRun_failed started run frames _)⟩
    · rename_i started count hstart
      have hstarted : Desk.Step c ⟨opened, .opened run :: frames, .train config pausing :: asked⟩
          ⟨started, .looping run count 1 :: frames, .train config pausing :: asked⟩ :=
        .top (.start hstart) rfl
      have hloop := (ReflTransGen.single hopened).tail hstarted
      split
      · rename_i passed mind' fault hpassed
        obtain ⟨f, more, hsteps, hfailed, -⟩ := throughEpochs_steps hlistener run hpassed frames
          (.train config pausing :: asked)
        obtain rfl := hfailed (by rintro ⟨⟩)
        rw [List.append_cons] at hsteps
        exact ⟨_, (hloop.trans hsteps).trans (endRun_failed passed run frames _)⟩
      · rename_i passed mind' hpassed
        obtain ⟨f, more, hsteps, -, hthrough⟩ := throughEpochs_steps hlistener run hpassed frames
          (.train config pausing :: asked)
        obtain ⟨left, epoch, rfl, hdone⟩ := hthrough rfl
        rw [List.append_cons] at hsteps
        exact ⟨_, (hloop.trans hsteps).trans (endRun_completed hdone frames _)⟩

theorem serves_closed (c : Nat) : Closed c (Serves (α := α) c) where
  refl := .refl
  trans := .trans
  prepare _ := .ask .prepare (by rintro _ ⟨⟩)
  dispose _ := .ask .dispose (by rintro _ ⟨⟩)
  stop _ := .ask .stop (by rintro _ ⟨⟩)
  build s graph input := .ask (.build graph input) fun run hrun => by
    obtain ⟨-, -, hnone⟩ := map_eq_ok.mp hrun
    cases hnone
  load _ name := .ask (.load name) (by rintro _ ⟨⟩)
  train hlistener s config pausing mind := train_serves hlistener s config pausing mind

/-- Every command of a caller is a number of its steps. -/
theorem perform_serves (c : Nat) (command : Command) (s : Session α) :
    Serves c s (perform c command s).1 :=
  (serves_closed c).perform command s

/-- And so is every plan that is followed at the end of an epoch. -/
theorem follow_serves (c : Nat) (plan : List (Value × Command)) (metrics : Metrics α)
    (h : Heard α (Minutes α)) : Serves c h.1 (follow (performPlan c plan) metrics h).1.1 :=
  (serves_closed c).performPlan plan metrics.epoch
    (h.1, { h.2 with told := h.2.told ++ [(metrics.epoch, h.1.isTraining)] })

end Session

end BlockNet
