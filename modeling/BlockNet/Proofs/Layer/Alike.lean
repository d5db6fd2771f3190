import BlockNet.Layer.Kernel
import BlockNet.Proofs.Tensor.Axes
import BlockNet.Proofs.Twin

/-! # Weights from different streams

The stream that weights are drawn from decides their values only: not their names and axes, and not
whether there are any. -/

namespace BlockNet

variable {α : Type} [Scalar α]

/-- The name and the axes of a weight. -/
def Weight.form {α : Type} (w : Weight α) : String × List Nat := (w.name, w.tensor.dims)

/-- What is settled about a layer: all but the values of its weights. -/
structure LayerForm where
  id : String
  label : Value
  kind : String
  params : Entries
  inputShapes : List TensorShape
  outputShape : TensorShape
  feeds : List String
  weights : List (String × List Nat)

/-- What is settled about a layer. -/
def Layer.form {α : Type} (l : Layer α) : LayerForm :=
  { id := l.id
    label := l.label
    kind := l.kind
    params := l.params
    inputShapes := l.inputShapes
    outputShape := l.outputShape
    feeds := l.feeds
    weights := l.weights.map Weight.form }

/-- Weights of the same names and axes. -/
def SameForms {α : Type} (ws ws' : List (Weight α)) : Prop :=
  ws.map Weight.form = ws'.map Weight.form

/-- The names of the weights whose values are drawn. -/
def Weight.drawnNames : List String := ["kernel", "w_ih", "w_hh", "w_q", "w_k", "w_v", "w_o"]

/-- Two weights that differ in their values at most, and in these only if they are drawn. -/
structure Weight.Akin {α : Type} (w w' : Weight α) : Prop where
  name : w'.name = w.name
  dims : w'.tensor.dims = w.tensor.dims
  trainable : w'.trainable = w.trainable
  settled : w.name ∉ drawnNames → w'.tensor = w.tensor

theorem Weight.Akin.refl {α : Type} (w : Weight α) : w.Akin w := ⟨rfl, rfl, rfl, fun _ => rfl⟩

theorem Weight.akin_self {α : Type} (ws : List (Weight α)) : List.Forall₂ Weight.Akin ws ws :=
  List.forall₂_same.mpr fun w _ => .refl w

/-- Weights that differ in drawn values only. -/
abbrev AkinWeights {α : Type} (ws ws' : List (Weight α)) : Prop := List.Forall₂ Weight.Akin ws ws'

theorem sameForms_of_akin {α : Type} {ws ws' : List (Weight α)} (h : AkinWeights ws ws') :
    SameForms ws ws' := by
  induction h with
  | nil => rfl
  | cons hw _ ih =>
      rw [SameForms, List.map_cons, List.map_cons, ih, Weight.form, Weight.form, hw.name, hw.dims]

theorem fanUniform_alike (dims : Value) (fanIn fanOut : Number) :
    Alike (fun x y : Tensor α => x.dims = y.dims) (fanUniform dims fanIn fanOut)
      (fanUniform dims fanIn fanOut) := by
  refine Alike.lift_bind fun bound => Alike.lift_bind fun sizes => ?_
  intro g g'
  rw [run_get_bind, run_get_bind, run_set_bind, run_set_bind]
  refine .ok ?_
  rw [Tensor.dims_ofFn, Tensor.dims_ofFn]

theorem drawnWeight_akin {name : String} (hname : name ∈ Weight.drawnNames) (dims : List Int)
    (fanIn fanOut : Int) :
    Alike (Weight.Akin (α := α)) (drawnWeight name dims fanIn fanOut)
      (drawnWeight name dims fanIn fanOut) :=
  (fanUniform_alike _ _ _).bind fun _ _ h =>
    .pure ⟨rfl, h.symm, rfl, fun hsettled => absurd hname hsettled⟩

theorem Dense.build_akin (params : Entries) (inputs : List TensorShape) :
    Alike AkinWeights (build params inputs : Draws (List (Weight α))) (build params inputs) :=
  Alike.lift_bind fun _ => Alike.lift_bind fun _ => Alike.lift_bind fun _ =>
    (drawnWeight_akin (by decide) _ _ _).bind fun _ _ hw => Alike.lift_bind fun bias =>
      .pure (.cons hw (Weight.akin_self bias))

theorem Convolution.build_akin (params : Entries) (inputs : List TensorShape) :
    Alike AkinWeights (build params inputs : Draws (List (Weight α))) (build params inputs) :=
  Alike.lift_bind fun _ => Alike.lift_bind fun _ => Alike.lift_bind fun _ =>
    Alike.lift_bind fun _ => (drawnWeight_akin (by decide) _ _ _).bind fun _ _ hw =>
      Alike.lift_bind fun bias => .pure (.cons hw (Weight.akin_self bias))

theorem Recurrent.build_akin (params : Entries) (inputs : List TensorShape) :
    Alike AkinWeights (build params inputs : Draws (List (Weight α))) (build params inputs) :=
  Alike.lift_bind fun _ => Alike.lift_bind fun _ => Alike.lift_bind fun _ =>
    (drawnWeight_akin (by decide) _ _ _).bind fun _ _ hw =>
      (drawnWeight_akin (by decide) _ _ _).bind fun _ _ hv => Alike.lift_bind fun bias =>
        .pure (.cons hw (.cons hv (Weight.akin_self [bias])))

theorem Attention.buildStream_akin (size : Int) {stream : String × TensorShape}
    (hstream : stream.1 ∈ streamNames) :
    Alike AkinWeights (buildStream size stream : Draws (List (Weight α)))
      (buildStream size stream) := by
  have hname : "w_" ++ stream.1 ∈ Weight.drawnNames := by
    have hall : ∀ name ∈ streamNames, "w_" ++ name ∈ Weight.drawnNames := by decide
    exact hall stream.1 hstream
  exact Alike.lift_bind fun _ => (drawnWeight_akin hname _ _ _).bind fun _ _ hw =>
    Alike.lift_bind fun b => .pure (.cons hw (Weight.akin_self [b]))

theorem Attention.build_akin (params : Entries) (inputs : List TensorShape) :
    Alike AkinWeights (build params inputs : Draws (List (Weight α))) (build params inputs) := by
  refine Alike.lift_bind fun size => Alike.lift_bind fun shapes => ?_
  have hstreams : ∀ stream ∈ streamNames.zip shapes, stream.1 ∈ streamNames :=
    fun stream h => (List.of_mem_zip h).1
  refine (Alike.mapM fun stream h => buildStream_akin size (hstreams stream h)).bind
    fun inner inner' hinner => (drawnWeight_akin (by decide) _ _ _).bind fun w w' hw =>
      Alike.lift_bind fun b => .pure ?_
  exact List.rel_append (List.rel_flatten hinner) (.cons hw (Weight.akin_self [b]))

/-- Layers of the same kind, settings and shapes get the same weights but for drawn values. -/
theorem Kernel.build_akin (k : Kernel) (params : Entries) (inputs : List TensorShape) :
    Alike AkinWeights (k.build params inputs : Draws (List (Weight α)))
      (k.build params inputs) := by
  cases k with
  | dense => exact Dense.build_akin params inputs
  | convolution => exact Convolution.build_akin params inputs
  | recurrent => exact Recurrent.build_akin params inputs
  | attention => exact Attention.build_akin params inputs
  | batchNorm | layerNorm =>
      simp only [Kernel.build]
      exact fun g g' => (Alike.lift _ g g').mono fun ws _ h => h ▸ Weight.akin_self ws
  | _ => exact .pure .nil

end BlockNet
