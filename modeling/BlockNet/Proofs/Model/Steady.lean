import BlockNet.Proofs.Layer.Steady
import BlockNet.Proofs.Model.Announced

/-! # Passes that draw nothing

Outside of training, and in training where all layers drop at rates of zero, a pass neither reads
the stream nor moves it on. Two such passes on the same inputs give the same and fail alike, wherever
their streams stand. -/

namespace BlockNet

variable {α : Type}

/-! ## Visits -/

namespace Pass

/-- All of a visit but the stream before it. -/
def Visit.told (v : Visit α) : Layer α × List (Signal α) × Signal α := (v.layer, v.inputs, v.output)

theorem outputOf?_told (vs : List (Visit α)) (key : String) :
    outputOf? vs key = ((vs.map Visit.told).reverse.find? (·.1.id == key)).map (·.2.2) := by
  rw [outputOf?, ← List.map_reverse, List.find?_map, Option.map_map]
  rfl

theorem ids_told (vs : List (Visit α)) : ids vs = ((vs.map Visit.told).map (·.1.id)).eraseDups := by
  rw [ids, List.map_map]
  rfl

/-- The inputs of a layer do not hang on the streams before earlier visits. -/
theorem argumentsOf_congr (m : Model α) (inputs : Inputs α) {vs ws : List (Visit α)}
    (h : vs.map Visit.told = ws.map Visit.told) (L : Layer α) :
    argumentsOf m inputs vs L = argumentsOf m inputs ws L := by
  refine mapM_congr fun key _ => ?_
  rw [outputOf?_told vs, outputOf?_told ws, h]

end Pass

variable [Scalar α]

/-- Is the rate zero at which a layer drops something in training, if it has one? -/
def Layer.dropsNothing (L : Layer α) : Bool :=
  match Kernel.ofKind? L.kind with
  | some k => k.dropsNothing L
  | none => true

namespace Pass

/-- What a layer that drops nothing is given after some visits, and what it gives. -/
def exchanged (m : Model α) (inputs : Inputs α) (vs : List (Visit α)) (L : Layer α) :
    Outcome (List (Signal α) × Signal α) :=
  match Kernel.ofKind? L.kind with
  | none => .error (.noKernel L.kind)
  | some k => do
      let args ← argumentsOf m inputs vs L
      .ok (args, ← k.steady L args)

theorem exchanged_congr (m : Model α) (inputs : Inputs α) {vs ws : List (Visit α)}
    (h : vs.map Visit.told = ws.map Visit.told) (L : Layer α) :
    exchanged m inputs vs L = exchanged m inputs ws L := by
  rw [exchanged, exchanged, argumentsOf_congr m inputs h]

section

variable (hknows : Scalar.KnowsZero α) (m : Model α) (inputs : Inputs α) {mode mode' : PassMode}

include hknows

/-- A visit to a layer that drops nothing leaves the stream, and all it does with it is to note
it. -/
theorem visit_steady {L : Layer α} (hL : mode.training = true → L.dropsNothing = true)
    (vs : List (Visit α)) (g : Generator) : (visit m inputs mode vs L).run g =
      ((exchanged m inputs vs L).map fun r => ⟨L, r.1, r.2, g⟩, g) := by
  cases hkernel : Kernel.ofKind? L.kind with
  | none =>
      simp only [visit, exchanged, hkernel]
      rfl
  | some k =>
      have hk : mode.training = true → k.dropsNothing L = true := by
        intro htraining
        have hnothing := hL htraining
        rwa [Layer.dropsNothing, hkernel] at hnothing
      simp only [visit, exchanged, hkernel]
      cases hargs : argumentsOf m inputs vs L with
      | error fault => rfl
      | ok args =>
          rw [run_lift_bind_ok rfl, run_get_bind, ok_bind, k.forward_steady hknows L args hk]
          cases k.steady L args with
          | error fault => rfl
          | ok y => rfl

/-- Two passes through layers that drop nothing go on alike: the visits differ in the streams before
them only, the fault is the same, and the stream stays. -/
theorem visitAll_steady {rest : List (Layer α)}
    (hrest : mode.training = true → ∀ L ∈ rest, L.dropsNothing = true)
    (hrest' : mode'.training = true → ∀ L ∈ rest, L.dropsNothing = true)
    {vs ws : List (Visit α)} (h : vs.map Visit.told = ws.map Visit.told) (g g' : Generator) :
    (visitAll m inputs mode rest vs g).1.map Visit.told =
        (visitAll m inputs mode' rest ws g').1.map Visit.told ∧
      (visitAll m inputs mode rest vs g).2.1 = (visitAll m inputs mode' rest ws g').2.1 ∧
      (visitAll m inputs mode rest vs g).2.2 = g := by
  -- the layers after one that drops nothing start from the same stream, with visits that tell the
  -- same
  induction rest generalizing vs ws with
  | nil => exact ⟨h, rfl, rfl⟩
  | cons L rest ih =>
      have hvisit := visit_steady hknows m inputs
        (fun htraining => hrest htraining L List.mem_cons_self) vs g
      have hvisit' := visit_steady hknows m inputs
        (fun htraining => hrest' htraining L List.mem_cons_self) ws g'
      rw [visitAll, visitAll, hvisit, hvisit', exchanged_congr m inputs h L]
      cases exchanged m inputs ws L with
      | error fault => exact ⟨h, rfl, rfl⟩
      | ok r =>
          apply ih
          · exact fun htraining K hK => hrest htraining K (List.mem_cons_of_mem _ hK)
          · exact fun htraining K hK => hrest' htraining K (List.mem_cons_of_mem _ hK)
          · rw [List.map_append, List.map_append, h]
            rfl

end

/-! ## Passes -/

omit [Scalar α] in
/-- Passes that differ in their modes and in streams only are seen to give the same. -/
theorem seen_congr {p q : Pass α} (hunbatched : p.unbatched = q.unbatched)
    (hvisits : p.visits.map Visit.told = q.visits.map Visit.told) (hfault : p.fault? = q.fault?)
    (m : Model α) : p.outputs = q.outputs ∧ p.output m = q.output m := by
  have hseen : p.seen = q.seen := by
    funext x
    rw [seen, seen, hunbatched]
  have houtput : outputOf? p.visits = outputOf? q.visits := by
    funext key
    rw [outputOf?_told p.visits, outputOf?_told q.visits, hvisits]
  constructor
  · rw [outputs, outputs, hfault, ids_told, ids_told, hvisits, houtput, hseen]
  · rw [output, output, hfault, houtput, hseen]

end Pass

/-- Passes that draw nothing give the same, fail alike and leave their streams. -/
theorem Model.run_steady (hknows : Scalar.KnowsZero α) (m : Model α) (inputs : Inputs α)
    {mode mode' : PassMode} (hmode : mode.training = true → ∀ L ∈ m.layers, L.dropsNothing = true)
    (hmode' : mode'.training = true → ∀ L ∈ m.layers, L.dropsNothing = true) (g g' : Generator) :
    (m.run inputs mode g).outputs = (m.run inputs mode' g').outputs ∧
      (m.run inputs mode g).output m = (m.run inputs mode' g').output m ∧
      (m.run inputs mode g).generator = g := by
  obtain ⟨hvisits, hfault, hstream⟩ := Pass.visitAll_steady hknows m
    (Forward.fed ⟨m, inputs, mode, g⟩) hmode hmode' (rfl : ([] : List (Pass.Visit α)).map _ = _) g g'
  have hrun := Forward.pass_eq ⟨m, inputs, mode, g⟩
  have hrun' := Forward.pass_eq ⟨m, inputs, mode', g'⟩
  simp only [Forward.pass] at hrun hrun'
  rw [hrun, hrun']
  obtain ⟨houtputs, houtput⟩ := Pass.seen_congr (p := ⟨mode, _, _, _, _⟩) (q := ⟨mode', _, _, _, _⟩)
    rfl hvisits hfault m
  exact ⟨houtputs, houtput, hstream⟩

/-- Outside of training a model gives the same, or fails alike, wherever the stream stands, and
leaves it there. Training gives just that as well, and leaves the stream as well, if every layer that
drops something in training does so at a rate of zero. -/
theorem Model.run_undrawn (m : Model Float) (inputs : Inputs Float) :
    (∀ streamed streamed' g g',
      (m.run inputs ⟨false, streamed⟩ g).outputs = (m.run inputs ⟨false, streamed'⟩ g').outputs ∧
      (m.run inputs ⟨false, streamed⟩ g).output m = (m.run inputs ⟨false, streamed'⟩ g').output m ∧
      (m.run inputs ⟨false, streamed⟩ g).generator = g) ∧
    ((∀ L ∈ m.layers, L.dropsNothing = true) → ∀ streamed streamed' g g',
      (m.run inputs ⟨true, streamed⟩ g).outputs = (m.run inputs ⟨false, streamed'⟩ g').outputs ∧
      (m.run inputs ⟨true, streamed⟩ g).output m = (m.run inputs ⟨false, streamed'⟩ g').output m ∧
      (m.run inputs ⟨true, streamed⟩ g).generator = g) := by
  have hidle : false = true → ∀ L ∈ m.layers, L.dropsNothing = true :=
    fun h => absurd h Bool.false_ne_true
  constructor
  · intro streamed streamed' g g'
    exact run_steady Scalar.knowsZero m inputs hidle hidle g g'
  · intro hnothing streamed streamed' g g'
    exact run_steady Scalar.knowsZero m inputs (fun _ => hnothing) hidle g g'

/-- Dropout in front of attention, both at a rate of zero. -/
def undroppingGraph : Graph :=
  let node (id blockType : String) (params : Entries) : Node :=
    ⟨id, blockType, params, .null, false, .null, []⟩
  { nodes := [node "drop" "Dropout" [(.text "rate", .real 0.0)],
      node "attn" "MultiHeadAttention"
        [(.text "dim", .int 4), (.text "heads", .int 2), (.text "dropout", .int 0)]]
    connections := [⟨.null, "drop", .text "output", "attn", .text "query", .null, .null, []⟩] }

theorem run_undrawn_undropping : ∃ m : Model Float,
    (compile Stock.catalog (.int 0) undroppingGraph (some (.shape attentiveInput))).1 = .ok m ∧
    m.layers.map (·.kind) = ["Dropout", "MultiHeadAttention"] ∧
    (∀ L ∈ m.layers, L.dropsNothing = true) ∧ ∀ inputs streamed streamed' g g',
      (m.run inputs ⟨true, streamed⟩ g).outputs = (m.run inputs ⟨false, streamed'⟩ g').outputs ∧
      (m.run inputs ⟨true, streamed⟩ g).output m = (m.run inputs ⟨false, streamed'⟩ g').output m ∧
      (m.run inputs ⟨true, streamed⟩ g).generator = g := by
  have hrun : ((compile Stock.catalog (.int 0) undroppingGraph
      (some (.shape attentiveInput))).1.toOption.map fun m : Model Float =>
        (m.layers.map (·.kind), m.layers.all Layer.dropsNothing)) =
          some (["Dropout", "MultiHeadAttention"], true) := by
    decide +kernel
  obtain ⟨m, hm, hboth⟩ := Option.map_eq_some_iff.mp hrun
  obtain ⟨hkinds, hall⟩ := Prod.mk.inj hboth
  have hnothing : ∀ L ∈ m.layers, L.dropsNothing = true := by simpa using hall
  refine ⟨m, toOption_eq_some.mp hm, hkinds, hnothing, fun inputs => ?_⟩
  exact (Model.run_undrawn m inputs).2 hnothing

end BlockNet
