import BlockNet.Layer.Kernel
import BlockNet.Proofs.Fault.Work

/-! # Faults of layers

Whether a layer is given its shape or its weights, or is run: what goes wrong is a fault of the
work. -/

namespace BlockNet

/-! ## Shapes and tensors -/

@[simp]
theorem Dim.ofInt_fails (n : Int) : FailsBy Fault.OfWork (ofInt n) := by
  fun_cases ofInt <;> simp

@[simp]
theorem Dim.ofValue_fails (v : Value) : FailsBy Fault.OfWork (ofValue v) := by
  fun_cases ofValue <;> simp

namespace TensorShape

variable (s : TensorShape) (kind : String)

@[simp]
theorem withSize_fails (index size : Int) : FailsBy Fault.OfWork (s.withSize index size) := by
  simp [withSize, setDim]

@[simp]
theorem ofSample_fails (sizes : List Int) : FailsBy Fault.OfWork (ofSample sizes) := by
  simp [ofSample]

section

variable {P : Fault → Prop} (hP : ∀ kind reason, P (.unresolvedShape kind reason))

include hP

theorem fixedSizes_failsBy (dims : List Dim) (what : String) :
    FailsBy P (s.fixedSizes kind dims what) := by
  rw [fixedSizes]
  split <;> simp [hP]

theorem featureSize_failsBy : FailsBy P (s.featureSize kind) := by
  rw [featureSize]
  split
  · simp [hP]
  · refine failsBy_bind.mpr ⟨fixedSizes_failsBy s kind hP _ _, fun sizes _ => ?_⟩
    split <;> simp

theorem imageSize_failsBy : FailsBy P (s.imageSize kind) := by
  rw [imageSize]
  split
  · simp [hP]
  · refine failsBy_bind.mpr ⟨fixedSizes_failsBy s kind hP _ _, fun sizes _ => ?_⟩
    split <;> simp [hP]

theorem sequenceSize_failsBy : FailsBy P (s.sequenceSize kind) := by
  rw [sequenceSize]
  split
  · simp [hP]
  · refine failsBy_bind.mpr ⟨fixedSizes_failsBy s kind hP _ _, fun sizes _ => ?_⟩
    split <;> simp [hP]

end

@[simp]
theorem fixedSizes_fails (dims : List Dim) (what : String) :
    FailsBy Fault.OfWork (s.fixedSizes kind dims what) :=
  s.fixedSizes_failsBy kind (fun _ _ => trivial) dims what

@[simp]
theorem featureSize_fails : FailsBy Fault.OfWork (s.featureSize kind) :=
  s.featureSize_failsBy kind fun _ _ => trivial

@[simp]
theorem imageSize_fails : FailsBy Fault.OfWork (s.imageSize kind) :=
  s.imageSize_failsBy kind fun _ _ => trivial

@[simp]
theorem sequenceSize_fails : FailsBy Fault.OfWork (s.sequenceSize kind) :=
  s.sequenceSize_failsBy kind fun _ _ => trivial

end TensorShape

@[simp]
theorem axisSizes_fails (dims : List Int) : FailsBy Fault.OfWork (axisSizes dims) := by
  simp [axisSizes]

@[simp]
theorem drawnSizes_fails (dims : List Int) : FailsBy Fault.OfWork (drawnSizes dims) := by
  simp [drawnSizes]

section

variable {α : Type}

@[simp]
theorem Tensor.reshape_fails (t : Tensor α) (dims : List Nat) :
    FailsBy Fault.OfWork (t.reshape dims) := by
  simp [reshape]

@[simp]
theorem Tensor.overlaid_fails (front back : List Nat) (f : Nat → Nat → α) :
    FailsBy Fault.OfWork (overlaid front back f) := by
  rw [overlaid]
  split <;> simp

@[simp]
theorem Signal.reshape_fails (x : Signal α) (dims : List Nat) :
    FailsBy Fault.OfWork (x.reshape dims) := by
  cases x <;> simp [reshape]

@[simp]
theorem Signal.batch_fails (x : Signal α) : FailsBy Fault.OfWork x.batch := by
  rw [batch]
  split <;> simp

@[simp]
theorem Signal.flattened_fails (x : Signal α) : FailsBy Fault.OfWork x.flattened := by
  simp [flattened]

@[simp]
theorem firstOf_fails (xs : List α) : FailsBy Fault.OfWork (firstOf xs) := by
  simp [firstOf]

@[simp]
theorem Layer.weight_fails (l : Layer α) (name : String) : FailsBy Fault.OfWork (l.weight name) := by
  simp [weight]

end

/-! ## The shape that a layer gives -/

section

variable (params : Entries) (inputs : List TensorShape)

@[simp]
theorem Pooling.outputShape_fails : FailsBy Fault.OfWork (outputShape params inputs) := by
  simp [outputShape]

section

variable {P : Fault → Prop} (hP : ∀ kind reason, P (.unresolvedShape kind reason))

include hP

theorem Addition.joined_failsBy (first : TensorShape) (last : Nat) (sizes : List Nat)
    (other : TensorShape) : FailsBy P (joined first last sizes other) := by
  refine failsBy_bind.mpr ⟨other.fixedSizes_failsBy kind hP _ _, fun dims _ => ?_⟩
  split <;> simp [hP]

theorem Concatenation.share_failsBy (first : TensorShape) (axis : Nat) (s : TensorShape) :
    FailsBy P (share first axis s) := by
  fun_cases share <;> simp [hP, s.fixedSizes_failsBy kind hP]

end

@[simp]
theorem Addition.joined_fails (first : TensorShape) (last : Nat) (sizes : List Nat)
    (other : TensorShape) : FailsBy Fault.OfWork (joined first last sizes other) :=
  joined_failsBy (fun _ _ => trivial) first last sizes other

@[simp]
theorem Concatenation.share_fails (first : TensorShape) (axis : Nat) (s : TensorShape) :
    FailsBy Fault.OfWork (share first axis s) :=
  share_failsBy (fun _ _ => trivial) first axis s

@[simp]
theorem Concatenation.outputShape_fails : FailsBy Fault.OfWork (outputShape params inputs) := by
  refine failsBy_bind.mpr ⟨by simp, fun first _ => ?_⟩
  refine failsBy_bind.mpr ⟨by simp, fun written _ => ?_⟩
  refine failsBy_bind.mpr ⟨by simp, fun axis _ => ?_⟩
  split <;> simp

@[simp]
theorem Attention.streams_fails {β : Type} (xs : List β) : FailsBy Fault.OfWork (streams xs) := by
  fun_cases streams <;> simp

@[simp]
theorem Attention.heads_fails (size wanted : Int) : FailsBy Fault.OfWork (heads size wanted) := by
  simp [heads]

@[simp]
theorem Kernel.outputShape_fails (k : Kernel) :
    FailsBy Fault.OfWork (k.outputShape params inputs) := by
  cases k <;> simp [outputShape, Dense.outputShape, Convolution.outputShape, flatShape,
    Normalization.outputShape, Addition.outputShape, Recurrent.outputShape, Attention.outputShape]

end

/-! ## The weights that a layer starts with -/

section

variable {α : Type} [Scalar α] (params : Entries) (inputs : List TensorShape)

@[simp]
theorem drawnWeight_fails (name : String) (dims : List Int) (fanIn fanOut : Int) :
    DrawsFailBy Fault.OfWork (drawnWeight name dims fanIn fanOut : Draws (Weight α)) := by
  simp [drawnWeight, fanUniform, fanBound]

@[simp]
theorem constantWeight_fails (name : String) (dims : List Int) (value : Value) :
    FailsBy Fault.OfWork (constantWeight name dims value : Outcome (Weight α)) := by
  simp [constantWeight, constantTensor]

@[simp]
theorem biasWeight_fails (size : Int) :
    FailsBy Fault.OfWork (biasWeight params size : Outcome (List (Weight α))) := by
  simp [biasWeight]

@[simp]
theorem Recurrent.build_fails :
    DrawsFailBy Fault.OfWork (build params inputs : Draws (List (Weight α))) := by
  refine drawsFailBy_lift_bind.mpr ⟨by simp, fun first _ => ?_⟩
  refine drawsFailBy_lift_bind.mpr ⟨by simp, fun sequence _ => ?_⟩
  refine drawsFailBy_lift_bind.mpr ⟨by simp, fun units _ => ?_⟩
  exact drawsFailBy_bind (by simp) fun fromInput => by simp

@[simp]
theorem Attention.build_fails :
    DrawsFailBy Fault.OfWork (build params inputs : Draws (List (Weight α))) := by
  have hstream : ∀ size stream,
      DrawsFailBy Fault.OfWork (buildStream size stream : Draws (List (Weight α))) := by
    simp [buildStream]
  refine drawsFailBy_lift_bind.mpr ⟨by simp, fun size _ => ?_⟩
  refine drawsFailBy_lift_bind.mpr ⟨by simp, fun shapes _ => ?_⟩
  exact drawsFailBy_bind (drawsFailBy_mapM fun stream _ => hstream size stream) fun inner => by simp

@[simp]
theorem Kernel.build_fails (k : Kernel) :
    DrawsFailBy Fault.OfWork (k.build params inputs : Draws (List (Weight α))) := by
  cases k <;> simp [build, Dense.build, Convolution.build, Normalization.build]

end

/-! ## The result of a layer -/

section

variable {α : Type} [Scalar α] (layer : Layer α) (inputs : List (Signal α))

@[simp]
theorem Entries.real_fails (entries : Entries) (name : String) :
    FailsBy Fault.OfWork (entries.real name : Outcome α) := by
  simp [real]

@[simp]
theorem Activation.applyNamed_fails (params : Entries) (t : Tensor α) :
    FailsBy Fault.OfWork (applyNamed params t) := by
  have hread : ∀ v, FailsBy Fault.OfWork (ofValue v) := by
    intro v
    fun_cases ofValue <;> simp
  have happly : ∀ a : Activation, FailsBy Fault.OfWork (a.apply t) := by
    intro a
    cases a <;> simp [apply, shareRows]
  simp [applyNamed, hread, happly]

@[simp]
theorem Dense.forward_fails : FailsBy Fault.OfWork (forward layer inputs) := by
  have hlinear : ∀ (x kernel : Tensor α) bias, FailsBy Fault.OfWork (linear x kernel bias) := by
    intro x kernel bias
    rw [linear]
    split <;> simp
  simp [forward, hlinear]

@[simp]
theorem Convolution.images_fails (shapes : List TensorShape) (kind : String) :
    FailsBy Fault.OfWork (images shapes kind inputs) := by
  simp [images]

@[simp]
theorem Convolution.forward_fails : FailsBy Fault.OfWork (forward layer inputs) := by
  simp [forward]

@[simp]
theorem Pooling.forward_fails : FailsBy Fault.OfWork (forward layer inputs) := by
  simp [forward]

@[simp]
theorem Normalization.stretched_fails (x gamma beta : Tensor α) :
    FailsBy Fault.OfWork (stretched x gamma beta) := by
  simp [stretched, Tensor.zipWith]

@[simp]
theorem Normalization.forwardBatch_fails : FailsBy Fault.OfWork (forwardBatch layer inputs) := by
  simp [forwardBatch]

@[simp]
theorem Normalization.forwardRows_fails : FailsBy Fault.OfWork (forwardRows layer inputs) := by
  simp [forwardRows]

@[simp]
theorem Recurrent.forward_fails : FailsBy Fault.OfWork (forward layer inputs) := by
  simp [forward, cellOf]

@[simp]
theorem Addition.forward_fails : FailsBy Fault.OfWork (forward inputs) := by
  simp [forward, plus, Tensor.zipWith]

@[simp]
theorem Concatenation.forward_fails : FailsBy Fault.OfWork (forward layer inputs) := by
  refine failsBy_bind.mpr ⟨by simp, fun axis _ => ?_⟩
  split
  · simp
  · split
    · simp
    · split <;> simp

@[simp]
theorem Kernel.quietForward_fails (k : Kernel) :
    FailsBy Fault.OfWork (k.quietForward layer inputs) := by
  cases k <;> simp [quietForward]

@[simp]
theorem Dropout.forward_fails (training : Bool) :
    DrawsFailBy Fault.OfWork (forward layer inputs training) := by
  simp [forward]

@[simp]
theorem Attention.project_fails (name : String) (input : Signal α) (shape : TensorShape) :
    FailsBy Fault.OfWork (project layer name input shape) := by
  simp [project, sequences]

@[simp]
theorem Attention.forward_fails (mode : PassMode) :
    DrawsFailBy Fault.OfWork (forward layer inputs mode) := by
  refine drawsFailBy_lift_bind.mpr ⟨by simp, fun size _ => ?_⟩
  refine drawsFailBy_lift_bind.mpr ⟨by simp, fun wanted _ => ?_⟩
  refine drawsFailBy_lift_bind.mpr ⟨by simp, fun count _ => ?_⟩
  refine drawsFailBy_lift_bind.mpr ⟨by simp, fun shapes _ => ?_⟩
  refine drawsFailBy_lift_bind.mpr ⟨by simp, fun signals _ => ?_⟩
  refine drawsFailBy_bind (by simp) fun projected => ?_
  split
  · split
    · simp
    · refine drawsFailBy_lift_bind.mpr ⟨by simp [rateOf], fun rate _ => ?_⟩
      refine drawsFailBy_lift_bind.mpr ⟨by simp [extentOf], fun e _ => ?_⟩
      refine drawsFailBy_bind drawsFailBy_get fun start => ?_
      have hmask : ∀ streamed, FailsBy Fault.OfWork (maskOf e rate streamed start) := by
        simp [maskOf]
      split <;> simp [hmask]
  · simp

@[simp]
theorem Kernel.forward_fails (k : Kernel) (mode : PassMode) :
    DrawsFailBy Fault.OfWork (k.forward layer inputs mode) := by
  cases k <;> simp [forward]

end

end BlockNet
