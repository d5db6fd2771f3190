import BlockNet.Model.Trace
import BlockNet.Proofs.Layer.Alike
import BlockNet.Proofs.Model.Pass
import BlockNet.Proofs.Model.Reach
import BlockNet.Proofs.Sample.Pass

/-! # Passes as they are announced

The listeners of a model hear of a pass while it runs: when it starts, of each layer as soon as that
has given something, and of the end if the pass comes to it. They hear the same when they are told
of the whole pass afterwards. -/

namespace BlockNet

variable {α : Type}

/-! ## Layers one after the other -/

namespace Pass

/-- What listeners hear after the layers: the end, unless there was a fault. -/
def ending (visits : List (Visit α)) : Option Fault → List Event
  | some _ => []
  | none => [.passEnd (ids visits).length]

theorem events_eq (p : Pass α) : p.events =
    .passStart p.mode.training :: (p.visits.map eventOf ++ ending p.visits p.fault?) := by
  rw [events, List.cons_append]
  cases p.fault? <;> rfl

variable [Scalar α]

/-- Runs layers one after the other, each after the visits before it, and tells an audience of each
as soon as it has given something, and of the end once all have. -/
def follow (m : Model α) (inputs : Inputs α) (mode : PassMode) :
    List (Layer α) → List (Visit α) → Generator → Audience →
      Audience × List (Visit α) × Option Fault × Generator
  | [], visits, g, a => (a.hear (.passEnd (ids visits).length), visits, none, g)
  | layer :: rest, visits, g, a =>
      match (visit m inputs mode visits layer).run g with
      | (.error fault, g) => (a, visits, some fault, g)
      | (.ok v, g) => follow m inputs mode rest (visits ++ [v]) g (a.hear (eventOf v))

/-- Where layers that run one after the other get to: through all of them, or to the first that comes
to a fault, with a visit to each layer before. -/
inductive Course (m : Model α) (inputs : Inputs α) (mode : PassMode) (visits : List (Visit α))
    (rest : List (Layer α)) : Option Fault → List (Visit α) → Prop where
  | through {new : List (Visit α)} (layers : new.map (·.layer) = rest) :
      Course m inputs mode visits rest none new
  | stopped {new : List (Visit α)} {L : Layer α} {later : List (Layer α)} {fault : Fault}
      {g g' : Generator} (layers : rest = new.map (·.layer) ++ L :: later)
      (fails : (visit m inputs mode (visits ++ new) L).run g = (.error fault, g')) :
      Course m inputs mode visits rest (some fault) new

theorem Course.cons {m : Model α} {inputs : Inputs α} {mode : PassMode} {visits new : List (Visit α)}
    {v : Visit α} {rest : List (Layer α)} {fault? : Option Fault}
    (h : Course m inputs mode (visits ++ [v]) rest fault? new) :
    Course m inputs mode visits (v.layer :: rest) fault? (v :: new) := by
  cases h with
  | through layers => exact .through (by rw [List.map_cons, layers])
  | stopped layers fails =>
      rw [List.append_assoc, List.singleton_append] at fails
      exact .stopped (by rw [layers]; rfl) fails

/-- Layers that are followed run as they do unheard, and the audience hears of just those visits. -/
theorem follow_course (m : Model α) (inputs : Inputs α) (mode : PassMode) (rest : List (Layer α))
    (visits : List (Visit α)) (g : Generator) (a : Audience) :
    ∃ new, (visitAll m inputs mode rest visits g).1 = visits ++ new ∧
      Course m inputs mode visits rest (visitAll m inputs mode rest visits g).2.1 new ∧
      follow m inputs mode rest visits g a =
        ((new.map eventOf ++ ending (visits ++ new) (visitAll m inputs mode rest visits g).2.1).foldl
          Audience.hear a, visitAll m inputs mode rest visits g) := by
  induction rest generalizing visits g a with
  | nil =>
      refine ⟨[], (List.append_nil visits).symm, .through rfl, ?_⟩
      rw [List.append_nil]
      rfl
  | cons L rest ih =>
      rw [visitAll, follow]
      rcases hv : (visit m inputs mode visits L).run g with ⟨fault | v, g'⟩
      · rw [← List.append_nil visits] at hv
        exact ⟨[], (List.append_nil visits).symm, .stopped rfl hv, by rw [List.append_nil]; rfl⟩
      · obtain ⟨new, hvisits, hcourse, hfollow⟩ := ih (visits ++ [v]) g' (a.hear (eventOf v))
        have happend : visits ++ [v] ++ new = visits ++ v :: new := by simp
        rw [happend] at hvisits hfollow
        exact ⟨v :: new, hvisits, visit_layer hv ▸ hcourse.cons, hfollow⟩

theorem visitAll_course (m : Model α) (inputs : Inputs α) (mode : PassMode) (rest : List (Layer α))
    (visits : List (Visit α)) (g : Generator) :
    ∃ new, (visitAll m inputs mode rest visits g).1 = visits ++ new ∧
      Course m inputs mode visits rest (visitAll m inputs mode rest visits g).2.1 new := by
  obtain ⟨new, hvisits, hcourse, -⟩ := follow_course m inputs mode rest visits g (.silent 0)
  exact ⟨new, hvisits, hcourse⟩

end Pass

/-! ## Passes -/

/-- A pass that is asked for: the model as it stands then, what it is given, and the stream. -/
structure Forward (α : Type) where
  model : Model α
  inputs : Inputs α
  mode : PassMode
  generator : Generator

namespace Forward

/-- Does one sample without a batch axis get one for the pass? -/
def unbatched (f : Forward α) : Bool :=
  match f.inputs with
  | .single x => Pass.isUnbatched f.model x
  | .named _ => false

/-- What the layers are fed from. -/
def fed (f : Forward α) : Inputs α :=
  match f.inputs with
  | .single x => .single (if f.unbatched then x.unsqueezed else x)
  | named => named

variable [Scalar α]

/-- What comes of it. -/
def pass (f : Forward α) : Pass α := f.model.run f.inputs f.mode f.generator

/-- Runs the model and tells an audience as it goes, if anyone listens. -/
def announce (f : Forward α) (a : Audience) : Audience × Pass α :=
  let r :=
    if a.isListening then
      Pass.follow f.model f.fed f.mode f.model.layers [] f.generator
        (a.hear (.passStart f.mode.training))
    else (a, Pass.visitAll f.model f.fed f.mode f.model.layers [] f.generator)
  (r.1, ⟨f.mode, f.unbatched, r.2.1, r.2.2.1, r.2.2.2⟩)

theorem pass_eq (f : Forward α) : f.pass =
    let r := Pass.visitAll f.model f.fed f.mode f.model.layers [] f.generator
    ⟨f.mode, f.unbatched, r.1, r.2.1, r.2.2⟩ := by
  obtain ⟨model, inputs, mode, generator⟩ := f
  cases inputs <;> rfl

theorem course (f : Forward α) :
    Pass.Course f.model f.fed f.mode [] f.model.layers f.pass.fault? f.pass.visits := by
  obtain ⟨new, hvisits, hcourse⟩ :=
    Pass.visitAll_course f.model f.fed f.mode f.model.layers [] f.generator
  rw [List.nil_append] at hvisits
  rw [pass_eq]
  dsimp only
  rw [hvisits]
  exact hcourse

/-- Told as it goes, an audience hears what it hears of the whole pass afterwards. -/
theorem announce_eq (f : Forward α) (a : Audience) : f.announce a = (a.attend f.pass, f.pass) := by
  rw [announce]
  split
  · obtain ⟨new, hvisits, -, hfollow⟩ :=
      Pass.follow_course f.model f.fed f.mode f.model.layers [] f.generator
        (a.hear (.passStart f.mode.training))
    rw [List.nil_append] at hvisits
    rw [hfollow, Audience.attend, Pass.events_eq, pass_eq, List.foldl_cons]
    dsimp only
    rw [hvisits, List.nil_append]
  · rename_i hsilent
    have hnone : a.listeners = [] := by simpa [Audience.isListening] using hsilent
    have hsame : ∀ events : List Event, events.foldl Audience.hear a = a := by
      intro events
      induction events with
      | nil => rfl
      | cons e events ih =>
          have hheard : a.hear e = a := by rw [Audience.hear, hnone]; rfl
          rw [List.foldl_cons, hheard, ih]
    rw [Audience.attend, hsame, pass_eq]

end Forward

/-! ## What they tell -/

/-- A model has layers of different ids, at least one. -/
structure Model.Layered (m : Model α) : Prop where
  nonempty : m.layers ≠ []
  nodup : (m.layers.map (·.id)).Nodup

/-- Every compiled model does, and whatever becomes of its weights. -/
theorem Compilation.compile_layered [Scalar α] {catalog : Catalog} {seed : Value} {g : Graph}
    {input : Option InputSpec} {m m' : Model α} (h : (compile catalog seed g input).1 = .ok m)
    (hform : m'.layers.map Layer.form = m.layers.map Layer.form) : m'.Layered := by
  have hc := compile_compiled h
  have hids : m'.layers.map (·.id) = m.layers.map (·.id) := by
    have hcongr := congrArg (List.map LayerForm.id) hform
    rw [List.map_map, List.map_map] at hcongr
    exact hcongr
  refine ⟨?_, hids ▸ hc.nodup⟩
  intro hnone
  rw [hnone] at hform
  exact hc.nonempty (List.map_eq_nil_iff.mp hform.symm)

namespace Forward

variable [Scalar α] {f : Forward α}

theorem layers_of_ok {y : Signal α} (h : f.pass.output f.model = .ok y) :
    f.pass.fault? = none ∧ f.pass.visits.map (·.layer) = f.model.layers := by
  have hcourse := f.course
  cases hfault : f.pass.fault? with
  | none =>
      rw [hfault] at hcourse
      cases hcourse with
      | through layers => exact ⟨rfl, layers⟩
  | some fault =>
      rw [Pass.output, hfault] at h
      cases h

theorem ids_of_ok {y : Signal α} (hm : f.model.Layered) (h : f.pass.output f.model = .ok y) :
    (f.pass.visits.map (·.layer.id)).Nodup := by
  have hnodup := hm.nodup
  rw [← (layers_of_ok h).2, List.map_map] at hnodup
  exact hnodup

/-- A pass that succeeds tells of its start, of every layer and of its end. -/
theorem events_of_ok {y : Signal α} (hm : f.model.Layered) (h : f.pass.output f.model = .ok y) :
    f.pass.events = .passStart f.mode.training ::
      (f.pass.visits.map Pass.eventOf ++ [.passEnd f.model.layers.length]) := by
  obtain ⟨hfault, hlayers⟩ := layers_of_ok h
  rw [Pass.events_eq, hfault, Pass.ending, Pass.ids, eraseDups_eq_self (ids_of_ok hm h),
    List.length_map, ← hlayers, List.length_map, pass_eq]

/-- A pass that fails does so at some layer, and tells of its start and of the layers before that
one. -/
theorem events_of_error {fault : Fault} (hm : f.model.Layered)
    (h : f.pass.output f.model = .error fault) :
    ∃ L later g g', f.model.layers = f.pass.visits.map (·.layer) ++ L :: later ∧
      (Pass.visit f.model f.fed f.mode f.pass.visits L).run g = (.error fault, g') ∧
      f.pass.events = .passStart f.mode.training :: f.pass.visits.map Pass.eventOf := by
  have hcourse := f.course
  cases hfault : f.pass.fault? with
  | none =>
      rw [hfault] at hcourse
      cases hcourse with
      | through layers =>
          obtain ⟨y, hy⟩ := Pass.output_eq_ok layers hfault hm.nodup hm.nonempty
          rw [hy] at h
          cases h
  | some other =>
      rw [Pass.output, hfault] at h
      obtain rfl := Except.error.inj h
      rw [hfault] at hcourse
      cases hcourse with
      | stopped layers fails =>
          refine ⟨_, _, _, _, layers, fails, ?_⟩
          rw [Pass.events_eq, hfault, Pass.ending, List.append_nil, pass_eq]

end Forward

end BlockNet
