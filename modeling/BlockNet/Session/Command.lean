import BlockNet.Session.Training
/-! # Commands to a session

Everything an editor asks of a session is a command, and every command has a reply. A training
run comes with a plan: commands to perform at the ends of its epochs, which may be training runs
with plans of their own. -/

namespace BlockNet

/-- What is asked of a session. A training run may pause between epochs. -/
inductive Command where
  | prepare
  | dispose
  | stop
  | build (graph : Outcome Graph) (input : Option InputSpec)
  | load (name : Value)
  | train (config : Value) (pausing : Bool) (plan : List (Value × Command))
  | fail (fault : Fault)

/-- What a session replies. A training run replies with its history, with the epochs that were
told and whether it counted as training then, and with the replies to its plan. -/
inductive Reply (α : Type) where
  | silent
  | flag (b : Bool)
  | built (model : Outcome (Model α))
  | loaded (spec : DatasetSpec)
  | trained (history : Outcome (List (Metrics α))) (told : List (Value × Bool))
      (replies : List (Reply α))
  | failed (fault : Fault)

namespace Session

variable {α : Type} [Scalar α]

/-- What was told and replied at the ends of epochs. -/
structure Minutes (α : Type) where
  told : List (Value × Bool)
  replies : List (Reply α)

/-- A part of a plan: what it does to a session and the replies so far when an epoch has ended. -/
abbrev PlanStep (α : Type) := Value → Heard α (Minutes α) → Heard α (Minutes α) × Option Fault

/-- Takes a reply to a plan down; the reply to a failure ends the run instead. -/
def takeDown (s : Session α) (minutes : Minutes α) (reply : Reply α) :
    Heard α (Minutes α) × Option Fault :=
  match reply with
  | .failed fault => ((s, minutes), some fault)
  | reply => ((s, { minutes with replies := minutes.replies ++ [reply] }), none)

/-- Who listens to a run with a plan: notes the epoch and performs what is planned. -/
def follow (plan : PlanStep α) : Listener α (Minutes α) := fun metrics h =>
  let told := h.2.told ++ [(metrics.epoch, h.1.isTraining)]
  plan metrics.epoch (h.1, { h.2 with told })

mutual

/-- Performs a command of a caller. -/
def perform (caller : Nat) : Command → Session α → Session α × Reply α
  | .prepare, s =>
      let (s, ready) := s.prepare
      (s, .flag ready)
  | .dispose, s => (s.dispose, .silent)
  | .stop, s =>
      let (s, active) := s.stopTraining
      (s, .flag active)
  | .build graph input, s =>
      let (s, model) := s.build graph input
      (s, .built model)
  | .load name, s =>
      let (s, spec) := s.loadDataset name
      (s, .loaded spec)
  | .train config pausing plan, s =>
      let ((s, minutes), history) :=
        s.train caller config pausing (follow (performPlan caller plan)) ⟨[], []⟩
      (s, .trained history minutes.told minutes.replies)
  | .fail fault, s => (s, .failed fault)

/-- Performs what is planned for the end of an epoch, up to a failure. -/
def performPlan (caller : Nat) : List (Value × Command) → PlanStep α
  | [], _, h => (h, none)
  | (due, command) :: rest, epoch, h =>
      if !epoch.equal false due then performPlan caller rest epoch h
      else
        let (s, reply) := perform caller command h.1
        match takeDown s h.2 reply with
        | (h, some fault) => (h, some fault)
        | (h, none) => performPlan caller rest epoch h

end

/-- A run of a second caller that waits at the end of its first epoch to be asked to stop, and a
command of the first caller meanwhile. Such a command asks the registered run to stop before it
does anything else, so the run ends with that epoch and the rest of the command follows. -/
def overlap (s : Session α) (config : Value) (command : Command) :
    Session α × Reply α × Reply α :=
  let (s, behind) := perform 1 (.train config false [(.int 1, .stop)]) s
  match command, behind with
  | .stop, .trained (.ok (_ :: _)) _ _ => (s, behind, .flag true)
  | _, _ =>
      let (s, reply) := perform 0 command s
      (s, behind, reply)

end Session

end BlockNet
