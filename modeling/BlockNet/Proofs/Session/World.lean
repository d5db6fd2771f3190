import BlockNet.Session.Training
import Mathlib.Logic.Relation
import Mathlib.Logic.Function.Basic

/-! # Callers at work on one session

Any number of callers use a session at once. What a caller is in the midst of is a stack of frames,
since whoever listens to a run may make calls of its own while the run waits for it. A turn of a
caller is as much as happens at once: what is done under the lock of the session, the setting of a
flag, the start of a run, an epoch of it, its end. Turns of different callers follow each other in
any order. -/

namespace BlockNet

/-- A call to train: the trainer as built, the number of its model, and the dataset loaded then. -/
structure Request (α : Type) where
  trainer : Trainer α
  model : Nat
  dataset : DatasetSpec

/-- What a caller is in the midst of.

A call to train is `knocking` at the register. While another caller's run is in the way it is
`refused`, has `asked` that run to stop, and may be `evicting` it once it is finished. A run that is
registered is `opened`; a started one is `looping` with some epochs left, or has `told` who listens of
an epoch. After a failure it is `failing`, after its last epoch it is `completing`, which is told too,
and then `closing`. A call to stop is `reading` the register, and then `flagging` what it read. -/
inductive Frame (α : Type) where
  | knocking (q : Request α)
  | refused (q : Request α) (active : Nat)
  | asked (q : Request α) (active : Nat)
  | evicting (q : Request α) (active : Nat)
  | opened (run : Nat)
  | looping (run left epoch : Nat)
  | told (run left epoch : Nat)
  | failing (run : Nat)
  | completing (run : Nat)
  | closing (run : Nat)
  | reading
  | flagging (run : Nat)

namespace Frame

variable {α : Type}

/-- The run that a frame takes through its epochs. -/
def run? : Frame α → Option Nat
  | opened run | looping run _ _ | told run _ _ | failing run | completing run | closing run =>
      some run
  | _ => none

/-- Does who listens to a run have the turn? -/
def IsCallback : Frame α → Prop
  | told _ _ _ | completing _ => True
  | _ => False

end Frame

namespace Session

variable {α : Type}

/-- Sets the flag of a run. -/
def stopRun (s : Session α) (run : Nat) : Session α :=
  (s.modifyTrainer run fun t => t.stop).note [stopNote]

/-- Sets the flag of a run in the way, unless it is set. -/
def pressRun (s : Session α) (run : Nat) : Session α :=
  if s.stopAsked run then s else s.stopRun run

/-- Ends a run, with a note if it went through. -/
def finishRun (s : Session α) (run : Nat) (wentThrough : Bool) : Session α :=
  let s := s.modifyTrainer run fun t => t.finish
  s.note (if wentThrough then ((s.trainer? run).map fun t => t.finishNote).toList else [])

/-- Tells the model of a run that is registered of the dataset. -/
def announce (s : Session α) (q : Request α) : Session α :=
  (s.nameDataset q.model q.dataset).note
    [.info ("Training session started on " ++ q.dataset.name.plain)]

variable [Scalar α]

/-- A turn of a caller in the midst of a frame: what becomes of the session and of the frame. -/
inductive Turn (s : Session α) (caller : Nat) : Frame α → Session α → Option (Frame α) → Prop
  | enter {q s' run} (h : s.register caller q.trainer q.model = some (s', run)) :
      Turn s caller (.knocking q) (s'.announce q) (some (.opened run))
  | refuse {q r} (h : s.registered = some r) (hother : r.caller ≠ caller) :
      Turn s caller (.knocking q) s (some (.refused q r.run))
  | ask {q active} : Turn s caller (.refused q active) (s.pressRun active) (some (.asked q active))
  | knock {q active} : Turn s caller (.asked q active) s (some (.knocking q))
  | drained {q active t} (h : s.trainer? active = some t) (hfinished : t.finished = true)
      (hrunning : t.running = false) :
      Turn s caller (.asked q active) s (some (.evicting q active))
  | evict {q active} :
      Turn s caller (.evicting q active) (s.unregister active) (some (.knocking q))
  | start {run s' count} (h : s.startRun run = (s', .ok count)) :
      Turn s caller (.opened run) s' (some (.looping run count 1))
  | startFault {run s' fault} (h : s.startRun run = (s', .error fault)) :
      Turn s caller (.opened run) s' (some (.failing run))
  | epoch {run left epoch s' metrics} (hgo : s.stopAsked run = false)
      (h : s.recordEpoch run epoch = (s', .ok metrics)) :
      Turn s caller (.looping run (left + 1) epoch) s' (some (.told run left (epoch + 1)))
  | epochFault {run left epoch s' fault} (hgo : s.stopAsked run = false)
      (h : s.recordEpoch run epoch = (s', .error fault)) :
      Turn s caller (.looping run (left + 1) epoch) s' (some (.failing run))
  | finish {run left epoch} (h : left = 0 ∨ s.stopAsked run = true) :
      Turn s caller (.looping run left epoch) (s.finishRun run true) (some (.completing run))
  | goOn {run left epoch} :
      Turn s caller (.told run left epoch) s (some (.looping run left epoch))
  | raise {run left epoch} : Turn s caller (.told run left epoch) s (some (.failing run))
  | fail {run} : Turn s caller (.failing run) (s.finishRun run false) (some (.closing run))
  | completed {run} : Turn s caller (.completing run) s (some (.closing run))
  | close {run} : Turn s caller (.closing run) (s.unregister run) none
  | idle (h : s.registered = none) : Turn s caller .reading s none
  | read {r} (h : s.registered = some r) : Turn s caller .reading s (some (.flagging r.run))
  | flag {run} : Turn s caller (.flagging run) (s.stopRun run) none

/-- What a caller can call. A trainer is built before the call to train reaches the register. -/
inductive Calls (s : Session α) : Frame α → Prop
  | stop : Calls s .reading
  | train {j d config t} (pausing : Bool) (hready : s.initialized = true)
      (hmodel : s.current = some j) (hdataset : s.dataset = some d)
      (h : (Trainer.build s.models[j]? config none none none).1 = .ok t) :
      Calls s (.knocking ⟨{ t with pausing }, j, d⟩)

end Session

/-- A session, and what each caller is in the midst of, the latest frame first. -/
structure World (α : Type) where
  session : Session α
  frames : Nat → List (Frame α)

namespace World

variable {α : Type}

/-- A caller is free to call: it is in the midst of nothing, or who listens to its run has the
turn. -/
def Free (stack : List (Frame α)) : Prop := ∀ f ∈ stack.head?, f.IsCallback

variable [Scalar α]

/-- A step of a caller: a turn, a call, or anything else that leaves runs and register as they
are. -/
inductive Step (caller : Nat) : World α → World α → Prop
  | turn {w f rest s' g} (hstack : w.frames caller = f :: rest)
      (h : w.session.Turn caller f s' g) :
      Step caller w ⟨s', Function.update w.frames caller (g.toList ++ rest)⟩
  | call {w f} (hfree : Free (w.frames caller)) (h : w.session.Calls f) :
      Step caller w ⟨w.session, Function.update w.frames caller (f :: w.frames caller)⟩
  | act {w s'} (hfree : Free (w.frames caller)) (hruns : s'.runs = w.session.runs)
      (hregistered : s'.registered = w.session.registered) : Step caller w ⟨s', w.frames⟩

/-- A session that nothing has happened in, and callers in the midst of nothing. -/
def fresh (catalog : Catalog) (seed : Value) : World α := ⟨Session.fresh catalog seed, fun _ => []⟩

/-- A world that any callers have come to in any order of their steps. -/
def Reachable (catalog : Catalog) (seed : Value) (w : World α) : Prop :=
  Relation.ReflTransGen (fun w w' => ∃ caller, Step caller w w') (fresh catalog seed) w

end World

end BlockNet
