import BlockNet.Proofs.Session.Orderly

/-! # Commands as turns

What a command does to a session of one caller, that caller comes to turn by turn, and all other
callers stay in the midst of what they are in. -/

namespace BlockNet

open Relation World

variable {α : Type} [Scalar α] {c : Nat} {s s' s'' : Session α}
  {frames : Nat → List (Frame α)} {rest : List (Frame α)}

/-- A turn of the caller on top of its stack. -/
theorem World.Step.top {f : Frame α} {g : Option (Frame α)} (h : s.Turn c f s' g) :
    Step c ⟨s, Function.update frames c (f :: rest)⟩
      ⟨s', Function.update frames c (g.toList ++ rest)⟩ := by
  have hstep := Step.turn (w := ⟨s, Function.update frames c (f :: rest)⟩)
    (Function.update_self ..) h
  rwa [Function.update_idem] at hstep

namespace Session

/-- A caller whose own run at most is registered comes from one session to another. -/
structure Plays (c : Nat) (s s' : Session α) : Prop where
  own : Own c s → Own c s'
  steps : Own c s → ∀ frames, Free (frames c) → ReflTransGen (Step c) ⟨s, frames⟩ ⟨s', frames⟩

theorem Plays.refl (s : Session α) : Plays c s s := ⟨id, fun _ _ _ => .refl⟩

theorem Plays.trans (h : Plays c s s') (h' : Plays c s' s'') : Plays c s s'' :=
  ⟨h'.own ∘ h.own,
    fun hown frames hfree => (h.steps hown frames hfree).trans (h'.steps (h.own hown) frames hfree)⟩

theorem Plays.act (hruns : s'.runs = s.runs) (hregistered : s'.registered = s.registered) :
    Plays c s s' :=
  ⟨fun h r hr => h r (hregistered ▸ hr),
    fun _ _ hfree => .single (.act (w := ⟨s, _⟩) hfree hruns hregistered)⟩

theorem stopTraining_plays (s : Session α) : Plays c s s.stopTraining.1 := by
  have hcall : ∀ frames, Free (frames c) →
      Step c ⟨s, frames⟩ ⟨s, Function.update frames c (.reading :: frames c)⟩ :=
    fun frames hfree => .call (w := ⟨s, frames⟩) hfree .stop
  cases hr : s.registered with
  | none =>
      rw [stopTraining, hr]
      exact .refl s
  | some r =>
      rw [stopTraining, hr]
      refine ⟨fun h r' hr' => h r' hr', fun _ frames hfree => ?_⟩
      have hread : Step c ⟨s, Function.update frames c (.reading :: frames c)⟩
          ⟨s, Function.update frames c (.flagging r.run :: frames c)⟩ := .top (.read hr)
      have hflag : Step c ⟨s, Function.update frames c (.flagging r.run :: frames c)⟩
          ⟨s.stopRun r.run, Function.update frames c (frames c)⟩ := .top .flag
      rw [Function.update_eq_self] at hflag
      exact ((ReflTransGen.single (hcall frames hfree)).tail hread).tail hflag

/-- A caller opens a run. -/
theorem openRun_steps {config : Value} {pausing : Bool} {run : Nat}
    (h : s.openRun c config pausing = (s', .ok run)) (hfree : Free (frames c)) :
    ReflTransGen (Step c) ⟨s, frames⟩
      ⟨s', Function.update frames c (.opened run :: frames c)⟩ := by
  obtain ⟨j, d, t, s₁, hready, hj, hd, hbuilt, hregister, rfl⟩ := openRun_inv h
  let q : Request α := ⟨{ t with pausing }, j, d⟩
  let noted := s.note (Trainer.build s.models[j]? config none none none).2
  have hnote : Step c ⟨s, frames⟩ ⟨noted, frames⟩ := .act (w := ⟨s, _⟩) hfree rfl rfl
  have hcall : Step c ⟨noted, frames⟩
      ⟨noted, Function.update frames c (.knocking q :: frames c)⟩ :=
    .call (w := ⟨noted, frames⟩) hfree (.train pausing hready hj hd hbuilt)
  exact ((ReflTransGen.single hnote).tail hcall).tail (.top (.enter hregister))

theorem build_plays (s : Session α) (graph : Outcome Graph) (input : Option InputSpec) :
    Plays c s (s.build graph input).1 := by
  have hstop : Plays c s s.stopTraining.1 := s.stopTraining_plays
  rw [build]
  split
  · exact .refl s
  · dsimp only
    split
    · exact hstop
    · split
      · exact hstop.trans (.act rfl rfl)
      · exact hstop.trans (.act rfl rfl)

/-- What a caller asks without opening a run. -/
theorem ask_plays {a : Ask} (hown : Own c s) (h : ∀ run, (s.ask c a).2 ≠ .ok (some run)) :
    Plays c s (s.ask c a).1 := by
  cases a with
  | prepare =>
      rw [ask, prepare]
      split <;> exact .act rfl rfl
  | dispose => exact s.stopTraining_plays.trans (.act rfl rfl)
  | stop => exact s.stopTraining_plays
  | build graph input => exact s.build_plays graph input
  | load name => exact .act rfl rfl
  | train config pausing =>
      rw [ask] at h ⊢
      cases hopen : s.openRun c config pausing with
      | mk s' result =>
          rw [hopen] at h
          cases result with
          | ok run => exact absurd rfl (h run)
          | error fault =>
              obtain ⟨log, rfl⟩ := openRun_error_eq hown hopen
              exact .act rfl rfl

end Session

/-! ## Steps at a desk -/

namespace Desk

variable {d d' : Desk α}

/-- A step at a desk registers no run but of the caller. -/
theorem Step.own (h : Step c d d') (hown : d.session.Own c) : d'.session.Own c := by
  cases h with
  | turn hstack hrun hturn =>
      obtain ⟨-, ⟨hregistered, -⟩ | ⟨rfl, -⟩⟩ := hturn.of_run hrun
      · exact fun r hr => hown r (hregistered ▸ hr)
      · exact fun r hr => hown r ((d.session.unregister_registered _).mp hr).1
  | ask a hfree =>
      cases hask : (d.session.ask c a).2 with
      | error fault =>
          obtain ⟨-, -, hregistered⟩ := Session.ask_error_turned hown hask
          exact fun r hr => hown r (hregistered ▸ hr)
      | ok opened =>
          cases opened with
          | none => exact (Session.ask_plays hown fun run => by rw [hask]; rintro ⟨⟩).own hown
          | some run =>
              obtain ⟨config, pausing, rfl, hopen⟩ := Session.ask_opens hask
              obtain ⟨-, hregistered⟩ := Session.openRun_turned (Prod.ext rfl hopen)
              intro r hr
              obtain rfl := Option.some.inj (hregistered.symm.trans hr)
              rfl

/-- A step at a desk is a number of steps among callers, in whatever the others are. -/
theorem Step.plays (h : Step c d d') (hown : d.session.Own c) (frames : Nat → List (Frame α)) :
    ReflTransGen (World.Step c) ⟨d.session, Function.update frames c d.frames⟩
      ⟨d'.session, Function.update frames c d'.frames⟩ := by
  cases h with
  | turn hstack hrun hturn =>
      rw [hstack]
      exact .single (.top hturn)
  | ask a hfree =>
      have hfree' : Free (Function.update frames c d.frames c) := by
        rwa [Function.update_self]
      rw [answer]
      dsimp only
      split
      · rename_i run hopened
        obtain ⟨config, pausing, rfl, hopen⟩ := Session.ask_opens hopened
        have hsteps := Session.openRun_steps (Prod.ext rfl hopen) hfree'
        rwa [Function.update_self, Function.update_idem] at hsteps
      · rename_i hnone
        exact (Session.ask_plays hown hnone).steps hown _ hfree'

theorem plays_of_steps (h : ReflTransGen (Step c) d d') (hown : d.session.Own c) :
    d'.session.Own c ∧ ∀ frames : Nat → List (Frame α),
      ReflTransGen (World.Step c) ⟨d.session, Function.update frames c d.frames⟩
        ⟨d'.session, Function.update frames c d'.frames⟩ := by
  induction h with
  | refl => exact ⟨hown, fun _ => .refl⟩
  | tail _ hstep ih =>
      obtain ⟨hown', hsteps⟩ := ih
      exact ⟨hstep.own hown', fun frames => (hsteps frames).trans (hstep.plays hown' frames)⟩

end Desk

namespace Session

/-- Every command of a caller is a number of its turns. -/
theorem perform_plays (caller : Nat) (command : Command) (s : Session α) :
    Plays caller s (perform caller command s).1 := by
  refine ⟨fun hown => ?_, fun hown frames hfree => ?_⟩
  · obtain ⟨more, hsteps⟩ := perform_serves caller command s [] [] (by rintro _ ⟨⟩)
    exact (Desk.plays_of_steps hsteps hown).1
  · obtain ⟨more, hsteps⟩ := perform_serves caller command s (frames caller) [] hfree
    have hplays := (Desk.plays_of_steps hsteps hown).2 frames
    rwa [Function.update_eq_self] at hplays

end Session

end BlockNet
