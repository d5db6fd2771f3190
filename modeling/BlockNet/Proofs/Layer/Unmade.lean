import BlockNet.Model.Compilation
import BlockNet.Proofs.Fault.Layer
import BlockNet.Proofs.Layer.Single

/-! # Layers that cannot be made

With settings that fit its schemas a layer fails to be made in two ways only: its shape cannot be
resolved, or the numbers of one of its weights are more than any tensor holds. -/

namespace BlockNet

/-- Does a fault tell that a layer of fitting settings cannot be made? -/
@[simp]
def Fault.Unmade : Fault → Prop
  | .unresolvedShape _ _ => True
  | .mishap .tooLarge | .mishap .wrongType | .mishap .badTensor => True
  | _ => False

/-! ## Shapes -/

namespace TensorShape

section

variable (s : TensorShape) (kind : String)

@[simp]
theorem fixedSizes_unmade (dims : List Dim) (what : String) :
    FailsBy Fault.Unmade (s.fixedSizes kind dims what) :=
  s.fixedSizes_failsBy kind (fun _ _ => trivial) dims what

@[simp]
theorem featureSize_unmade : FailsBy Fault.Unmade (s.featureSize kind) :=
  s.featureSize_failsBy kind fun _ _ => trivial

@[simp]
theorem imageSize_unmade : FailsBy Fault.Unmade (s.imageSize kind) :=
  s.imageSize_failsBy kind fun _ _ => trivial

@[simp]
theorem sequenceSize_unmade : FailsBy Fault.Unmade (s.sequenceSize kind) :=
  s.sequenceSize_failsBy kind fun _ _ => trivial

end

theorem rank_of_featureSize {s : TensorShape} {kind : String} {n : Nat}
    (h : s.featureSize kind = .ok n) : s.rank ≠ 0 := by
  intro hrank
  rw [featureSize, List.length_eq_zero_iff.mp hrank] at h
  cases h

theorem withSize_unmade {s : TensorShape} {index : Int} {i : Nat}
    (h : position? s.rank index = some i) (n : Nat) :
    FailsBy Fault.Unmade (s.withSize index n) := by
  obtain ⟨s', hs⟩ := exists_withSize h n
  rw [hs]
  exact failsBy_ok s'

theorem ofSample_unmade (sizes : List Nat) :
    FailsBy Fault.Unmade (ofSample (sizes.map fun n : Nat => (n : Int))) := by
  rw [ofSample_map]
  exact failsBy_ok _

end TensorShape

section Shape

variable {params : Entries} (shape : TensorShape) (shapes : List TensorShape)

theorem Dense.outputShape_unmade (h : params.Fit Kernel.dense.settings) :
    FailsBy Fault.Unmade (Dense.outputShape params (shape :: shapes)) := by
  obtain ⟨units, -, hunits⟩ := h.size (.head _)
  rw [outputShape, firstOf_cons, ok_bind, hunits]
  refine failsBy_bind.mpr ⟨by simp, fun n hn => ?_⟩
  have hrank := TensorShape.rank_of_featureSize hn
  rw [ok_bind]
  exact failsBy_bind.mpr
    ⟨TensorShape.withSize_unmade (TensorShape.position?_last hrank) units, by simp⟩

theorem Convolution.outputShape_unmade (h : params.Fit Kernel.convolution.settings) :
    FailsBy Fault.Unmade (Convolution.outputShape params (shape :: shapes)) := by
  obtain ⟨filters, -, hfilters⟩ := h.size (.head _)
  rw [outputShape, firstOf_cons, ok_bind, hfilters]
  refine failsBy_bind.mpr ⟨by simp, fun image _ => ?_⟩
  exact TensorShape.ofSample_unmade [image.height, image.width, filters]

theorem Pooling.outputShape_unmade (h : params.Fit Kernel.pooling.settings) :
    FailsBy Fault.Unmade (Pooling.outputShape params (shape :: shapes)) := by
  obtain ⟨pool, hpos, hpool⟩ := h.size (.head _)
  rw [outputShape, firstOf_cons, ok_bind, hpool]
  refine failsBy_bind.mpr ⟨by simp, fun image _ => ?_⟩
  have hne : ¬(pool : Int) = 0 := by omega
  simp only [ok_bind, hne, if_false, ← Int.ofNat_fdiv, failsBy_ite]
  refine ⟨by simp, fun _ => ?_⟩
  exact TensorShape.ofSample_unmade [image.height / pool, image.width / pool, image.channels]

theorem Addition.outputShape_unmade :
    FailsBy Fault.Unmade (Addition.outputShape (shape :: shapes)) := by
  rw [outputShape, firstOf_cons, ok_bind]
  refine failsBy_bind.mpr ⟨by simp, fun last _ => failsBy_bind.mpr ⟨by simp, fun sizes _ => ?_⟩⟩
  refine failsBy_bind.mpr ⟨?_, fun sizes _ => TensorShape.ofSample_unmade sizes⟩
  exact failsBy_foldlM (fun sizes other _ => joined_failsBy (fun _ _ => trivial) _ _ _ _) sizes

theorem Concatenation.outputShape_unmade (h : params.Fit Kernel.concatenation.settings) :
    FailsBy Fault.Unmade (Concatenation.outputShape params (shape :: shapes)) := by
  obtain ⟨axis, haxis, -⟩ := h.integer (.head _)
  rw [outputShape, firstOf_cons, ok_bind, Entries.require, haxis]
  simp only [orMishap, ok_bind, Value.toInt]
  split
  · simp
  · simp
  · rename_i i hi
    refine failsBy_bind.mpr ⟨failsBy_mapM fun s _ => share_failsBy (fun _ _ => trivial) _ _ s, fun shares _ => ?_⟩
    have hplace := TensorShape.position?_natCast (TensorShape.position?_lt hi)
    exact failsBy_bind.mpr ⟨TensorShape.withSize_unmade hplace _, by simp⟩

theorem Recurrent.outputShape_unmade (h : params.Fit Kernel.recurrent.settings) :
    FailsBy Fault.Unmade (Recurrent.outputShape params (shape :: shapes)) := by
  obtain ⟨units, -, hunits⟩ := h.size (.head _)
  rw [outputShape, firstOf_cons, ok_bind, hunits]
  refine failsBy_bind.mpr ⟨by simp, fun sequence _ => ?_⟩
  rw [ok_bind, failsBy_ite]
  exact ⟨fun _ => TensorShape.ofSample_unmade [sequence.steps, units],
    fun _ => TensorShape.ofSample_unmade [units]⟩

theorem Attention.outputShape_unmade (h : params.Fit Kernel.attention.settings) :
    FailsBy Fault.Unmade (Attention.outputShape params (shape :: shapes)) := by
  obtain ⟨size, -, hsize⟩ := h.size (.tail _ (.head _))
  rw [outputShape, firstOf_cons, ok_bind, hsize]
  refine failsBy_bind.mpr ⟨by simp, fun sequence _ => ?_⟩
  exact TensorShape.ofSample_unmade [sequence.steps, size]

/-- A kernel knows the shape that it gives, or says that it cannot be resolved. -/
theorem Kernel.outputShape_unmade {k : Kernel} (h : params.Fit k.settings) :
    FailsBy Fault.Unmade (k.outputShape params (shape :: shapes)) := by
  cases k with
  | dense => exact Dense.outputShape_unmade shape shapes h
  | convolution => exact Convolution.outputShape_unmade shape shapes h
  | pooling => exact Pooling.outputShape_unmade shape shapes h
  | addition => exact Addition.outputShape_unmade shape shapes
  | concatenation => exact Concatenation.outputShape_unmade shape shapes h
  | recurrent => exact Recurrent.outputShape_unmade shape shapes h
  | attention => exact Attention.outputShape_unmade shape shapes h
  | _ => simp [outputShape, flatShape, Normalization.outputShape, firstOf_cons, ok_bind]

end Shape

/-! ## Weights -/

@[simp]
theorem axisSizes_unmade (dims : List Int) : FailsBy Fault.Unmade (axisSizes dims) := by
  simp [axisSizes, mishap]

section Weights

variable {α : Type} [Scalar α] {params : Entries} (shape : TensorShape) (shapes : List TensorShape)

@[simp]
theorem drawnWeight_unmade (name : String) (dims : List Int) (fanIn fanOut : Int) :
    DrawsFailBy Fault.Unmade (drawnWeight name dims fanIn fanOut : Draws (Weight α)) := by
  have hfloat : ∀ n : Number, FailsBy Fault.Unmade n.toFloat := by
    intro n
    rw [Number.toFloat]
    cases n.float? <;> simp [orMishap, mishap]
  have hbound : FailsBy Fault.Unmade (fanBound (.whole fanIn) (.whole fanOut) : Outcome α) :=
    failsBy_bind.mpr ⟨by simp [Number.plus, Number.integer?], fun fans _ =>
      failsBy_bind.mpr ⟨hfloat _, by simp⟩⟩
  refine drawsFailBy_bind ?_ fun _ => by simp
  refine drawsFailBy_lift_bind.mpr ⟨hbound, fun _ _ => drawsFailBy_lift_bind.mpr ⟨?_, by simp⟩⟩
  rw [Value.toList, ok_bind, mapM_toInt, ok_bind, drawnSizes]
  simp

@[simp]
theorem constantWeight_unmade (name : String) (dims : List Int) (x : Float) :
    FailsBy Fault.Unmade (constantWeight name dims (.real x) : Outcome (Weight α)) := by
  simp [constantWeight, constantTensor, Value.toFloat]

theorem biasWeight_unmade {specs : List ParamSpec} (h : params.Fit specs)
    (hmem : Stock.biasParams ⊆ specs) (size : Int) :
    FailsBy Fault.Unmade (biasWeight params size : Outcome (List (Weight α))) := by
  obtain ⟨v, hv, hadmits⟩ := h _ (hmem (.tail _ (.head _)))
  obtain ⟨x, rfl, -, -⟩ := ParamSpec.admits_about.mp hadmits
  have hinit : params.get? "bias_init" = some (.real x) := hv
  simp [biasWeight, hinit]

theorem Dense.build_unmade (h : params.Fit Kernel.dense.settings) :
    DrawsFailBy Fault.Unmade (build params (shape :: shapes) : Draws (List (Weight α))) := by
  obtain ⟨units, -, hunits⟩ := h.size (.head _)
  have hbias : Stock.biasParams ⊆ Kernel.dense.settings := fun _ hs => .tail _ (.tail _ hs)
  rw [build, firstOf_cons, lift_ok_bind, hunits]
  refine drawsFailBy_lift_bind.mpr ⟨by simp, fun features _ => ?_⟩
  rw [lift_ok_bind]
  exact drawsFailBy_bind (by simp) fun kernel =>
    drawsFailBy_lift_bind.mpr ⟨biasWeight_unmade h hbias _, by simp⟩

theorem Convolution.build_unmade (h : params.Fit Kernel.convolution.settings) :
    DrawsFailBy Fault.Unmade (build params (shape :: shapes) : Draws (List (Weight α))) := by
  obtain ⟨filters, -, hfilters⟩ := h.size (.head _)
  obtain ⟨k, -, hk⟩ := h.size (.tail _ (.head _))
  have hbias : Stock.biasParams ⊆ Kernel.convolution.settings :=
    fun _ hs => .tail _ (.tail _ (.tail _ hs))
  rw [build, firstOf_cons, lift_ok_bind, hfilters, hk]
  refine drawsFailBy_lift_bind.mpr ⟨by simp, fun image _ => ?_⟩
  rw [lift_ok_bind, lift_ok_bind]
  exact drawsFailBy_bind (by simp) fun kernel =>
    drawsFailBy_lift_bind.mpr ⟨biasWeight_unmade h hbias _, by simp⟩

theorem Normalization.build_unmade (kind : String) :
    FailsBy Fault.Unmade (build kind (shape :: shapes) : Outcome (List (Weight α))) := by
  simp [build, firstOf_cons, ok_bind]

theorem Recurrent.build_unmade (h : params.Fit Kernel.recurrent.settings) :
    DrawsFailBy Fault.Unmade (build params (shape :: shapes) : Draws (List (Weight α))) := by
  obtain ⟨units, -, hunits⟩ := h.size (.head _)
  rw [build, firstOf_cons, lift_ok_bind, hunits]
  refine drawsFailBy_lift_bind.mpr ⟨by simp, fun sequence _ => ?_⟩
  rw [lift_ok_bind]
  exact drawsFailBy_bind (by simp) fun fromInput => drawsFailBy_bind (by simp) fun fromHidden =>
    drawsFailBy_lift_bind.mpr ⟨by simp, by simp⟩

theorem Attention.build_unmade (h : params.Fit Kernel.attention.settings) :
    DrawsFailBy Fault.Unmade (build params (shape :: shapes) : Draws (List (Weight α))) := by
  obtain ⟨size, -, hsize⟩ := h.size (.tail _ (.head _))
  have hstreams : FailsBy Fault.Unmade (streams (shape :: shapes)) := by
    rcases shapes with _ | ⟨keys, _ | ⟨values, rest⟩⟩ <;> exact failsBy_ok _
  have hstream : ∀ stream,
      DrawsFailBy Fault.Unmade (buildStream size stream : Draws (List (Weight α))) := by
    intro stream
    refine drawsFailBy_lift_bind.mpr ⟨by simp, fun sequence _ => ?_⟩
    exact drawsFailBy_bind (by simp) fun w => drawsFailBy_lift_bind.mpr ⟨by simp, by simp⟩
  rw [build, hsize, lift_ok_bind]
  refine drawsFailBy_lift_bind.mpr ⟨hstreams, fun views _ => ?_⟩
  refine drawsFailBy_bind (drawsFailBy_mapM fun stream _ => hstream stream) fun inner => ?_
  exact drawsFailBy_bind (by simp) fun w => drawsFailBy_lift_bind.mpr ⟨by simp, by simp⟩

/-- A kernel makes the weights of a layer, or finds one of them too large. -/
theorem Kernel.build_unmade {k : Kernel} (h : params.Fit k.settings) :
    DrawsFailBy Fault.Unmade (k.build params (shape :: shapes) : Draws (List (Weight α))) := by
  cases k with
  | dense => exact Dense.build_unmade shape shapes h
  | convolution => exact Convolution.build_unmade shape shapes h
  | batchNorm | layerNorm =>
      rw [build]
      exact drawsFailBy_lift.mpr (Normalization.build_unmade shape shapes _)
  | recurrent => exact Recurrent.build_unmade shape shapes h
  | attention => exact Attention.build_unmade shape shapes h
  | _ => exact drawsFailBy_pure []

/-- A layer of fitting settings is made, or its shape is unresolved, or a weight of it too large. -/
theorem Compilation.construct_unmade {k : Kernel} (h : params.Fit k.settings) :
    DrawsFailBy Fault.Unmade
      (construct k params (shape :: shapes) : Draws (TensorShape × List (Weight α))) :=
  drawsFailBy_lift_bind.mpr ⟨k.outputShape_unmade shape shapes h, fun _ _ =>
    drawsFailBy_bind (k.build_unmade shape shapes h) fun _ => by simp⟩

end Weights

end BlockNet
