import BlockNet.Proofs.Training.Epoch
import BlockNet.Session.Command

/-! # Histories of sessions

A command works on a session in small acts: a run is opened, started, taken through its epochs and
ended, and between its epochs whoever listens acts on the session too. A history is a list of acts,
the latest first. Whatever a command and its plan do to a session, a history does. -/

namespace BlockNet

/-- What happens to a session at once. -/
inductive Session.Act where
  | prepare
  | dispose
  | stop
  | build (graph : Outcome Graph) (input : Option InputSpec)
  | load (name : Value)
  | openRun (caller : Nat) (config : Value) (pausing : Bool)
  | startRun (run : Nat)
  | recordEpoch (run epoch : Nat)
  | endRun (run : Nat) (wentThrough : Bool)

namespace Session

variable {α : Type} [Scalar α]

/-- The session after an act. -/
def act (s : Session α) : Act → Session α
  | .prepare => s.prepare.1
  | .dispose => s.dispose
  | .stop => s.stopTraining.1
  | .build graph input => (s.build graph input).1
  | .load name => (s.loadDataset name).1
  | .openRun caller config pausing => (s.openRun caller config pausing).1
  | .startRun run => (s.startRun run).1
  | .recordEpoch run epoch => (s.recordEpoch run epoch).1
  | .endRun run wentThrough => s.endRun run wentThrough

/-- The session after a history, the latest act first. -/
def replay (s : Session α) (acts : List Act) : Session α := acts.foldr (fun a s => s.act a) s

@[simp] theorem replay_nil (s : Session α) : s.replay [] = s := rfl

@[simp] theorem replay_cons (s : Session α) (a : Act) (acts : List Act) :
    s.replay (a :: acts) = (s.replay acts).act a := rfl

theorem replay_append (s : Session α) (later acts : List Act) :
    s.replay (later ++ acts) = (s.replay acts).replay later := by
  simp only [replay, List.foldr_append]

/-- A session that some history leads to from another one. -/
def Leads (s s' : Session α) : Prop := ∃ acts, s' = s.replay acts

theorem Leads.refl (s : Session α) : Leads s s := ⟨[], rfl⟩

theorem Leads.trans {s s' s'' : Session α} (h : Leads s s') (h' : Leads s' s'') : Leads s s'' := by
  obtain ⟨acts, rfl⟩ := h
  obtain ⟨later, rfl⟩ := h'
  exact ⟨later ++ acts, (replay_append s later acts).symm⟩

theorem leads_act (s : Session α) (a : Act) : Leads s (s.act a) := ⟨[a], rfl⟩

/-! ## Training -/

variable {τ : Type}

theorem tellEpoch_leads {listener : Listener α τ} (hlistener : ∀ m h, Leads h.1 (listener m h).1.1)
    (run epoch : Nat) (h : Heard α τ) : Leads h.1 (tellEpoch run listener epoch h).1.1 := by
  have hact := leads_act h.1 (.recordEpoch run epoch)
  rw [act] at hact
  rw [tellEpoch]
  split
  · rename_i hrecord
    rwa [hrecord] at hact
  · rename_i hrecord
    rw [hrecord] at hact
    exact hact.trans (hlistener _ (_, h.2))

theorem train_leads {listener : Listener α τ} (hlistener : ∀ m h, Leads h.1 (listener m h).1.1)
    (s : Session α) (caller : Nat) (config : Value) (pausing : Bool) (mind : τ) :
    Leads s (s.train caller config pausing listener mind).1.1 := by
  have hopen := leads_act s (.openRun caller config pausing)
  rw [act] at hopen
  rw [train]
  split
  · rename_i h
    rwa [h] at hopen
  · rename_i opened run h
    rw [h] at hopen
    have hstart := hopen.trans (leads_act opened (.startRun run))
    rw [act] at hstart
    split
    · rename_i started _ h
      rw [h] at hstart
      exact hstart.trans (leads_act started (.endRun run false))
    · rename_i started count h
      rw [h] at hstart
      have hepochs := hstart.trans (throughEpochs_keeps (R := fun h h' => Leads h.1 h'.1)
        (fun h => .refl h.1) Leads.trans (tellEpoch_leads hlistener run)
        (fun h => stopAsked h.1 run) count 1 (started, mind))
      split
      · rename_i passed _ _ h
        rw [h] at hepochs
        exact hepochs.trans (leads_act passed (.endRun run false))
      · rename_i passed _ h
        rw [h] at hepochs
        exact hepochs.trans (leads_act passed (.endRun run true))

/-! ## Commands -/

/-- A relation that nothing done for a caller at once leads out of. -/
structure Closed (caller : Nat) (R : Session α → Session α → Prop) : Prop where
  refl : ∀ s, R s s
  trans : ∀ {s s' s''}, R s s' → R s' s'' → R s s''
  prepare : ∀ s, R s s.prepare.1
  dispose : ∀ s, R s s.dispose
  stop : ∀ s, R s s.stopTraining.1
  build : ∀ s graph input, R s (s.build graph input).1
  load : ∀ s name, R s (s.loadDataset name).1
  train : ∀ {listener : Listener α (Minutes α)}, (∀ m h, R h.1 (listener m h).1.1) →
    ∀ s config pausing mind, R s (s.train caller config pausing listener mind).1.1

omit [Scalar α] in
theorem takeDown_session (s : Session α) (minutes : Minutes α) (reply : Reply α) :
    (takeDown s minutes reply).1.1 = s := by
  cases reply <;> rfl

mutual

/-- No command of the caller leads out of the relation. -/
theorem Closed.perform {caller : Nat} {R : Session α → Session α → Prop} (h : Closed caller R)
    (c : Command) (s : Session α) : R s (s.perform caller c).1 := by
  match c with
  | .prepare => exact h.prepare s
  | .dispose => exact h.dispose s
  | .stop => exact h.stop s
  | .build graph input => exact h.build s graph input
  | .load name => exact h.load s name
  | .train config pausing plan =>
      refine h.train (fun m heard => ?_) s config pausing ⟨[], []⟩
      exact h.performPlan plan m.epoch
        (heard.1, { heard.2 with told := heard.2.told ++ [(m.epoch, heard.1.isTraining)] })
  | .fail _ => exact h.refl s

/-- And neither does what is planned for the end of an epoch. -/
theorem Closed.performPlan {caller : Nat} {R : Session α → Session α → Prop} (h : Closed caller R)
    (plan : List (Value × Command)) (epoch : Value) (heard : Heard α (Minutes α)) :
    R heard.1 (Session.performPlan caller plan epoch heard).1.1 := by
  match plan with
  | [] => exact h.refl heard.1
  | (due, command) :: rest =>
      rw [Session.performPlan]
      split
      · exact h.performPlan rest epoch heard
      · have hcommand := h.perform command heard.1
        split
        rename_i s reply hperform
        rw [hperform] at hcommand
        have hs := takeDown_session s heard.2 reply
        split
        · rename_i hdown
          rw [hdown] at hs
          exact hs ▸ hcommand
        · rename_i hdown
          rw [hdown] at hs
          exact h.trans (hs ▸ hcommand) (h.performPlan rest epoch _)

end

/-- Every command is a history of acts. -/
theorem perform_leads (caller : Nat) (c : Command) (s : Session α) :
    Leads s (perform caller c s).1 := by
  have hclosed : Closed caller (Leads (α := α)) :=
    { refl := .refl
      trans := .trans
      prepare := fun s => leads_act s .prepare
      dispose := fun s => leads_act s .dispose
      stop := fun s => leads_act s .stop
      build := fun s graph input => leads_act s (.build graph input)
      load := fun s name => leads_act s (.load name)
      train := fun hlistener s => train_leads hlistener s caller }
  exact hclosed.perform c s

end Session

end BlockNet
