import BlockNet.Proofs.Session.Desk
import BlockNet.Proofs.Session.Runs
import BlockNet.Proofs.Session.Stage

/-! # Order at a desk

A run that is registered is the one that the caller is in the midst of, on top of all others. So when
the caller is in the midst of nothing, nothing is registered. -/

namespace BlockNet

open Relation

variable {α : Type} {c : Nat} {s s' : Session α} {f : Frame α} {g : Option (Frame α)} {run : Nat}

namespace Session

/-- No other caller has a run registered. -/
def Own (c : Nat) (s : Session α) : Prop := ∀ r, s.registered = some r → r.caller = c

/-- A session is initialized or not as it was, and turned to the same model and dataset. -/
structure Turned (s s' : Session α) : Prop where
  initialized : s'.initialized = s.initialized
  current : s'.current = s.current
  dataset : s'.dataset = s.dataset
  models : s'.models.length = s.models.length

theorem unregister_turned (s : Session α) (run : Nat) : Turned s (s.unregister run) := by
  rw [unregister]
  split
  · split <;> exact ⟨rfl, rfl, rfl, rfl⟩
  · exact ⟨rfl, rfl, rfl, rfl⟩

theorem prepare_ready (s : Session α) : s.prepare.1.initialized = true ∧
    s.prepare.1.registered = s.registered ∧ s.prepare.1.current = s.current ∧
      s.prepare.1.models = s.models := by
  rw [prepare]
  split
  · exact ⟨‹_›, rfl, rfl, rfl⟩
  · exact ⟨rfl, rfl, rfl, rfl⟩

theorem stopTraining_turned (s : Session α) : Turned s s.stopTraining.1 := by
  rw [stopTraining]
  split <;> exact ⟨rfl, rfl, rfl, rfl⟩

theorem stopTraining_registered (s : Session α) :
    s.stopTraining.1.registered = s.registered := by
  rw [stopTraining]
  split <;> rfl

theorem startRun_turned (s : Session α) (run : Nat) : Turned s (s.startRun run).1 := by
  rw [startRun]
  split
  · exact ⟨rfl, rfl, rfl, rfl⟩
  · split <;> exact ⟨rfl, rfl, rfl, rfl⟩

variable [Scalar α]

theorem recordEpoch_turned (s : Session α) (run epoch : Nat) :
    Turned s (s.recordEpoch run epoch).1 := by
  rw [recordEpoch]
  split
  · exact ⟨rfl, rfl, rfl, rfl⟩
  · split
    · exact ⟨rfl, rfl, rfl, rfl⟩
    · exact ⟨rfl, rfl, rfl, List.length_set ..⟩

/-- The turn of a run turns the session to nothing else. It leaves the register alone and the run in
some frame, or takes the run off the register and ends. -/
theorem Turn.of_run (h : s.Turn c f s' g) (hrun : f.run? = some run) : Turned s s' ∧
    ((s'.registered = s.registered ∧ ∃ f', g = some f' ∧ f'.run? = some run) ∨
      (s' = s.unregister run ∧ g = none)) := by
  cases h with
  | enter | refuse | ask | knock | drained | evict | idle | read | flag => cases hrun
  | @start run _ _ h =>
      have hturned := s.startRun_turned run
      have hregistered := s.startRun_registered run
      rw [h] at hturned hregistered
      exact ⟨hturned, .inl ⟨hregistered, _, rfl, hrun⟩⟩
  | @startFault run _ _ h =>
      have hturned := s.startRun_turned run
      have hregistered := s.startRun_registered run
      rw [h] at hturned hregistered
      exact ⟨hturned, .inl ⟨hregistered, _, rfl, hrun⟩⟩
  | @epoch run _ epoch _ _ hgo h =>
      have hturned := s.recordEpoch_turned run epoch
      have hsteady := s.recordEpoch_steady run epoch
      rw [h] at hturned hsteady
      exact ⟨hturned, .inl ⟨hsteady.registered, _, rfl, hrun⟩⟩
  | @epochFault run _ epoch _ _ hgo h =>
      have hturned := s.recordEpoch_turned run epoch
      have hsteady := s.recordEpoch_steady run epoch
      rw [h] at hturned hsteady
      exact ⟨hturned, .inl ⟨hsteady.registered, _, rfl, hrun⟩⟩
  | finish | fail => exact ⟨⟨rfl, rfl, rfl, rfl⟩, .inl ⟨rfl, _, rfl, hrun⟩⟩
  | goOn | raise | completed => exact ⟨⟨rfl, rfl, rfl, rfl⟩, .inl ⟨rfl, _, rfl, hrun⟩⟩
  | close =>
      obtain rfl := Option.some.inj hrun
      exact ⟨s.unregister_turned _, .inr ⟨rfl, rfl⟩⟩

/-! ## What is asked -/

omit [Scalar α] in
theorem register_turned {t : Trainer α} {model : Nat}
    (h : s.register c t model = some (s', run)) : Turned s s' := by
  rw [register] at h
  split at h
  · obtain ⟨rfl, -⟩ := Prod.mk.inj (Option.some.inj h)
    exact ⟨rfl, rfl, rfl, rfl⟩
  · split at h
    · obtain ⟨rfl, -⟩ := Prod.mk.inj (Option.some.inj h)
      exact ⟨rfl, rfl, rfl, rfl⟩
    · cases h

omit [Scalar α] in
theorem openRun_turned {config : Value} {pausing : Bool}
    (h : s.openRun c config pausing = (s', .ok run)) :
    Turned s s' ∧ s'.registered = some ⟨run, c⟩ := by
  obtain ⟨j, d, t, s₁, -, -, -, -, hregister, rfl⟩ := openRun_inv h
  obtain ⟨hinitialized, hcurrent, hdataset, hmodels⟩ := register_turned hregister
  exact ⟨⟨hinitialized, hcurrent, hdataset, (List.length_modify ..).trans hmodels⟩,
    (register_entered hregister).registered⟩

omit [Scalar α] in
/-- A caller whose own run is registered at most opens a run or leaves nothing but notes. -/
theorem openRun_error_eq {config : Value} {pausing : Bool} {fault : Fault} (hown : Own c s)
    (h : s.openRun c config pausing = (s', .error fault)) : ∃ log, s' = s.note log := by
  have hnothing : s = s.note [] := by rw [note, List.append_nil]
  rw [openRun] at h
  split at h
  · obtain ⟨rfl, -⟩ := Prod.mk.inj h
    exact ⟨_, hnothing⟩
  · split at h
    · dsimp only at h
      split at h
      · obtain ⟨rfl, -⟩ := Prod.mk.inj h
        exact ⟨_, rfl⟩
      · split at h
        · rename_i hregister
          rw [register] at hregister
          split at hregister
          · cases hregister
          · rename_i r hr
            rw [if_pos (hown r hr)] at hregister
            cases hregister
        · cases h
    · obtain ⟨rfl, -⟩ := Prod.mk.inj h
      exact ⟨_, hnothing⟩

/-- A build that fails leaves nothing but notes and a stop that is asked for. -/
theorem build_error_eq {graph : Outcome Graph} {input : Option InputSpec} {fault : Fault}
    (h : s.build graph input = (s', .error fault)) :
    s' = s ∨ ∃ log, s' = s.stopTraining.1.note log := by
  rw [build] at h
  split at h
  · exact .inl (Prod.mk.inj h).1.symm
  · dsimp only at h
    split at h
    · obtain ⟨rfl, -⟩ := Prod.mk.inj h
      exact .inr ⟨[], by rw [note, List.append_nil]⟩
    · split at h
      · exact .inr ⟨_, (Prod.mk.inj h).1.symm⟩
      · cases h

/-- A build that succeeds turns to the model, the last one. -/
theorem build_ok_eq {graph : Outcome Graph} {input : Option InputSpec} {m : Model α}
    (h : s.build graph input = (s', .ok m)) :
    s.initialized = true ∧ ∃ log, s' = (s.stopTraining.1.note log).adopt m := by
  rw [build] at h
  split at h
  · cases h
  · rename_i hready
    dsimp only at h
    split at h
    · cases h
    · split at h
      · cases h
      · obtain ⟨rfl, hm⟩ := Prod.mk.inj h
        obtain rfl := Except.ok.inj hm
        rw [requireInitialized] at hready
        split at hready
        · exact ⟨‹_›, _, rfl⟩
        · cases hready

/-- Only who asks for a training run opens one. -/
theorem ask_opens {a : Ask} (h : (s.ask c a).2 = .ok (some run)) : ∃ config pausing,
    a = .train config pausing ∧ (s.openRun c config pausing).2 = .ok run := by
  cases a with
  | prepare | dispose | stop | load => cases h
  | build graph input =>
      obtain ⟨-, -, hnone⟩ := map_eq_ok.mp h
      cases hnone
  | train config pausing =>
      obtain ⟨run', hrun, hsame⟩ := map_eq_ok.mp h
      obtain rfl := Option.some.inj hsame
      exact ⟨config, pausing, rfl, hrun⟩

/-- A fault leaves model, dataset, readiness and register as they were. -/
theorem ask_error_turned {a : Ask} {fault : Fault} (hown : Own c s)
    (h : (s.ask c a).2 = .error fault) : Turned s (s.ask c a).1 ∧
      (s.ask c a).1.models = s.models ∧ (s.ask c a).1.registered = s.registered := by
  cases a with
  | prepare | dispose | stop | load => cases h
  | build graph input =>
      rw [ask] at h ⊢
      cases hbuild : s.build graph input with
      | mk s' result =>
          rw [hbuild] at h
          cases result with
          | ok m => cases h
          | error other =>
              obtain rfl | ⟨log, rfl⟩ := build_error_eq hbuild
              · exact ⟨⟨rfl, rfl, rfl, rfl⟩, rfl, rfl⟩
              · obtain ⟨hinitialized, hcurrent, hdataset, hlength⟩ := s.stopTraining_turned
                exact ⟨⟨hinitialized, hcurrent, hdataset, hlength⟩, s.stopTraining_keeps.2.1,
                  s.stopTraining_registered⟩
  | train config pausing =>
      rw [ask] at h ⊢
      cases hopen : s.openRun c config pausing with
      | mk s' result =>
          rw [hopen] at h
          cases result with
          | ok run => cases h
          | error other =>
              obtain ⟨log, rfl⟩ := openRun_error_eq hown hopen
              exact ⟨⟨rfl, rfl, rfl, rfl⟩, rfl, rfl⟩

end Session

/-! ## Order -/

/-- Has a session been initialized since it was set up or given up? The latest is first. -/
def Ask.ready : List Ask → Bool
  | [] => false
  | .prepare :: _ => true
  | .dispose :: _ => false
  | _ :: past => ready past

namespace Desk

/-- Nothing is registered but the run on top, the model in use exists, and a session is ready as it
was asked to be. -/
structure Orderly (c : Nat) (d : Desk α) : Prop where
  own : d.session.Own c
  top : ∀ r, d.session.registered = some r → ∃ f rest, d.frames = f :: rest ∧ f.run? = some r.run
  current : ∀ j, d.session.current = some j → j < d.session.models.length
  initialized : d.session.initialized = Ask.ready d.asked

namespace Orderly

variable [Scalar α] {d d' : Desk α}

/-- A caller that opens no run stays in the midst of the same. -/
theorem of_kept (h : d.Orderly c) {a : Ask} {s' : Session α}
    (hanswer : d.answer c a = ⟨s', d.frames, a :: d.asked⟩)
    (hregistered : s'.registered = d.session.registered)
    (hcurrent : ∀ j, s'.current = some j → j < s'.models.length)
    (hinitialized : s'.initialized = Ask.ready (a :: d.asked)) : (d.answer c a).Orderly c := by
  rw [hanswer]
  exact ⟨fun r hr => h.own r (hregistered ▸ hr), fun r hr => h.top r (hregistered ▸ hr), hcurrent,
    hinitialized⟩

theorem answer (h : d.Orderly c) (a : Ask) : (d.answer c a).Orderly c := by
  have hturns : ∀ {s' : Session α}, Session.Turned d.session s' →
      ∀ j, s'.current = some j → j < s'.models.length := by
    intro s' hturned j hj
    rw [hturned.models]
    exact h.current j (hturned.current ▸ hj)
  cases hask : (d.session.ask c a).2 with
  | error fault =>
      obtain ⟨hturned, -, hregistered⟩ := Session.ask_error_turned h.own hask
      refine h.of_kept (by rw [Desk.answer, hask]) hregistered (hturns hturned) ?_
      rw [hturned.initialized, h.initialized]
      -- of what raises a fault nothing prepares a session or gives it up
      cases a with
      | prepare | dispose | stop | load => cases hask
      | build | train => rfl
  | ok opened =>
      cases a with
      | prepare =>
          obtain ⟨hready, hregistered, hcurrent, hmodels⟩ := d.session.prepare_ready
          refine h.of_kept rfl hregistered (fun j hj => ?_) hready
          rw [Session.ask, hmodels]
          exact h.current j (hcurrent ▸ hj)
      | dispose =>
          exact h.of_kept rfl d.session.stopTraining_registered (by rintro _ ⟨⟩) rfl
      | stop =>
          have hturned := d.session.stopTraining_turned
          exact h.of_kept rfl d.session.stopTraining_registered (hturns hturned)
            (hturned.initialized.trans h.initialized)
      | load name => exact h.of_kept rfl rfl h.current h.initialized
      | build graph input =>
          cases hbuild : d.session.build graph input with
          | mk s' result =>
              rw [Session.ask, hbuild] at hask
              cases result with
              | error fault => cases hask
              | ok m =>
                  obtain ⟨-, log, rfl⟩ := Session.build_ok_eq hbuild
                  have hanswer : d.answer c (.build graph input) =
                      ⟨(d.session.stopTraining.1.note log).adopt m, d.frames,
                        .build graph input :: d.asked⟩ := by
                    rw [Desk.answer, Session.ask, hbuild]
                    rfl
                  refine h.of_kept hanswer d.session.stopTraining_registered (fun j hj => ?_)
                    (d.session.stopTraining_turned.initialized.trans h.initialized)
                  obtain rfl := Option.some.inj hj
                  simp [Session.adopt]
      | train config pausing =>
          rw [Session.ask] at hask
          cases hopen : d.session.openRun c config pausing with
          | mk s' result =>
              rw [hopen] at hask
              cases result with
              | error fault => cases hask
              | ok run =>
                  obtain ⟨hturned, hregistered⟩ := Session.openRun_turned hopen
                  have hanswer : d.answer c (.train config pausing) =
                      ⟨s', .opened run :: d.frames, .train config pausing :: d.asked⟩ := by
                    rw [Desk.answer, Session.ask, hopen]
                    rfl
                  rw [hanswer]
                  refine ⟨fun r hr => ?_, fun r hr => ?_, fun j hj => ?_,
                    hturned.initialized.trans h.initialized⟩
                  · obtain rfl := Option.some.inj (hregistered.symm.trans hr)
                    rfl
                  · obtain rfl := Option.some.inj (hregistered.symm.trans hr)
                    exact ⟨_, _, rfl, rfl⟩
                  · rw [hturned.models]
                    exact h.current j (hturned.current ▸ hj)

theorem turn (h : d.Orderly c) {f : Frame α} {rest : List (Frame α)} {run : Nat} {s' : Session α}
    {g : Option (Frame α)} (hstack : d.frames = f :: rest) (hrun : f.run? = some run)
    (hturn : d.session.Turn c f s' g) : Orderly c ⟨s', g.toList ++ rest, d.asked⟩ := by
  obtain ⟨hturned, hends⟩ := hturn.of_run hrun
  have htop : ∀ r, d.session.registered = some r → r.run = run := by
    intro r hr
    obtain ⟨f', rest', hstack', hrun'⟩ := h.top r hr
    obtain ⟨rfl, -⟩ := List.cons.inj (hstack.symm.trans hstack')
    exact Option.some.inj (hrun'.symm.trans hrun)
  have hcurrent : ∀ j, s'.current = some j → j < s'.models.length := by
    intro j hj
    rw [hturned.models]
    exact h.current j (hturned.current ▸ hj)
  have hinitialized := hturned.initialized.trans h.initialized
  rcases hends with ⟨hregistered, f', rfl, hrun'⟩ | ⟨rfl, rfl⟩
  · refine ⟨fun r hr => h.own r (hregistered ▸ hr), fun r hr => ?_, hcurrent, hinitialized⟩
    exact ⟨f', rest, rfl, (htop r (hregistered ▸ hr)) ▸ hrun'⟩
  · have hnone : (d.session.unregister run).registered = none := by
      rw [Option.eq_none_iff_forall_ne_some]
      intro r hr
      obtain ⟨hr, hne⟩ := (d.session.unregister_registered run).mp hr
      exact hne (htop r hr)
    refine ⟨fun r hr => ?_, fun r hr => ?_, hcurrent, hinitialized⟩
    all_goals
      rw [hnone] at hr
      cases hr

theorem step (h : d.Orderly c) (hstep : Step c d d') : d'.Orderly c := by
  cases hstep with
  | ask a hfree => exact h.answer a
  | turn hstack hrun hturn => exact h.turn hstack hrun hturn

end Orderly

theorem fresh_orderly (catalog : Catalog) (seed : Value) :
    (fresh (α := α) catalog seed).Orderly c :=
  ⟨by rintro _ ⟨⟩, by rintro _ ⟨⟩, by rintro _ ⟨⟩, rfl⟩

theorem Reachable.orderly [Scalar α] {catalog : Catalog} {seed : Value} {d : Desk α}
    (h : Reachable c catalog seed d) : d.Orderly c := by
  induction h with
  | refl => exact fresh_orderly catalog seed
  | tail _ hstep ih => exact ih.step hstep

end Desk

end BlockNet
