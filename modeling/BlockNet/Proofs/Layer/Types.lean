import BlockNet.Proofs.Tensor.Axes
import BlockNet.Layer.Kernel

/-! # Element types of layers

What element type a kernel declares and what type of tensor it gives. Some kernels declare the type
that enters; fewer of them hand on what enters as it is, and all others give real numbers. -/

namespace BlockNet

variable {α : Type} [Scalar α]

/-! ## Declared types -/

/-- The first of the shapes that enter is one of real numbers. -/
def FirstReal (shapes : List TensorShape) : Prop :=
  ∃ first, shapes.head? = some first ∧ first.dtype = .float32

/-- Does the kernel declare the element type that enters, whatever it is? -/
def Kernel.inherits : Kernel → Bool
  | .flatten | .dropout | .activation | .batchNorm | .layerNorm => true
  | _ => false

theorem firstOf_eq_ok {β : Type} {inputs : List β} {x : β} (h : firstOf inputs = .ok x) :
    inputs.head? = some x := by
  cases inputs with
  | nil => cases h
  | cons y inputs => exact congrArg some (Except.ok.inj h)

theorem TensorShape.ofSample_dtype {sizes : List Int} {out : TensorShape}
    (h : ofSample sizes = .ok out) : out.dtype = .float32 := by
  obtain ⟨dims, -, h⟩ := bind_eq_ok.mp h
  obtain rfl := Except.ok.inj h
  rfl

theorem Pooling.outputShape_dtype {params : Entries} {shapes : List TensorShape}
    {out : TensorShape} (h : outputShape params shapes = .ok out) : out.dtype = .float32 := by
  obtain ⟨first, -, h⟩ := bind_eq_ok.mp h
  obtain ⟨image, -, h⟩ := bind_eq_ok.mp h
  obtain ⟨pool, -, h⟩ := bind_eq_ok.mp h
  split at h
  · cases h
  · simp only at h
    split at h
    · cases h
    · exact TensorShape.ofSample_dtype h

theorem Recurrent.outputShape_dtype {params : Entries} {shapes : List TensorShape}
    {out : TensorShape} (h : outputShape params shapes = .ok out) : out.dtype = .float32 := by
  obtain ⟨first, -, h⟩ := bind_eq_ok.mp h
  obtain ⟨sequence, -, h⟩ := bind_eq_ok.mp h
  obtain ⟨units, -, h⟩ := bind_eq_ok.mp h
  split at h
  · exact TensorShape.ofSample_dtype h
  · exact TensorShape.ofSample_dtype h

theorem Concatenation.outputShape_dtype {params : Entries} {shapes : List TensorShape}
    {out : TensorShape} (h : outputShape params shapes = .ok out) : out.dtype = .float32 := by
  obtain ⟨first, -, h⟩ := bind_eq_ok.mp h
  obtain ⟨written, -, h⟩ := bind_eq_ok.mp h
  obtain ⟨axis, -, h⟩ := bind_eq_ok.mp h
  split at h
  · cases h
  · cases h
  · obtain ⟨shares, -, h⟩ := bind_eq_ok.mp h
    obtain ⟨shape, -, h⟩ := bind_eq_ok.mp h
    obtain rfl := Except.ok.inj h
    rfl

/-- A kernel that does not declare the type that enters declares real numbers. -/
theorem Kernel.outputShape_dtype {k : Kernel} {params : Entries} {shapes : List TensorShape}
    {out : TensorShape} (hk : k.inherits = false) (h : k.outputShape params shapes = .ok out) :
    out.dtype = .float32 := by
  cases k with
  | dense =>
      obtain ⟨first, -, h⟩ := bind_eq_ok.mp h
      obtain ⟨features, -, h⟩ := bind_eq_ok.mp h
      obtain ⟨units, -, h⟩ := bind_eq_ok.mp h
      obtain ⟨shape, -, h⟩ := bind_eq_ok.mp h
      obtain rfl := Except.ok.inj h
      rfl
  | convolution =>
      obtain ⟨first, -, h⟩ := bind_eq_ok.mp h
      obtain ⟨image, -, h⟩ := bind_eq_ok.mp h
      obtain ⟨filters, -, h⟩ := bind_eq_ok.mp h
      exact TensorShape.ofSample_dtype h
  | pooling => exact Pooling.outputShape_dtype h
  | addition =>
      obtain ⟨first, -, h⟩ := bind_eq_ok.mp h
      obtain ⟨last, -, h⟩ := bind_eq_ok.mp h
      obtain ⟨sizes, -, h⟩ := bind_eq_ok.mp h
      obtain ⟨sizes, -, h⟩ := bind_eq_ok.mp h
      exact TensorShape.ofSample_dtype h
  | concatenation => exact Concatenation.outputShape_dtype h
  | recurrent => exact Recurrent.outputShape_dtype h
  | attention =>
      obtain ⟨first, -, h⟩ := bind_eq_ok.mp h
      obtain ⟨sequence, -, h⟩ := bind_eq_ok.mp h
      obtain ⟨size, -, h⟩ := bind_eq_ok.mp h
      exact TensorShape.ofSample_dtype h
  | flatten => cases hk
  | dropout => cases hk
  | activation => cases hk
  | batchNorm => cases hk
  | layerNorm => cases hk

theorem Kernel.outputShape_inherits {k : Kernel} {params : Entries} {shapes : List TensorShape}
    {out : TensorShape} (hk : k.inherits = true) (h : k.outputShape params shapes = .ok out) :
    ∃ first, shapes.head? = some first ∧ out.dtype = first.dtype := by
  have hkept : firstOf shapes = .ok out → ∃ first, shapes.head? = some first ∧
      out.dtype = first.dtype := fun h => ⟨out, firstOf_eq_ok h, rfl⟩
  cases k with
  | flatten =>
      obtain ⟨first, hfirst, h⟩ := bind_eq_ok.mp h
      obtain ⟨sizes, -, h⟩ := bind_eq_ok.mp h
      obtain rfl := Except.ok.inj h
      exact ⟨first, firstOf_eq_ok hfirst, rfl⟩
  | dropout => exact hkept h
  | activation => exact hkept h
  | batchNorm => exact hkept h
  | layerNorm => exact hkept h
  | dense => cases hk
  | convolution => cases hk
  | pooling => cases hk
  | addition => cases hk
  | concatenation => cases hk
  | recurrent => cases hk
  | attention => cases hk

/-- What a kernel declares is real numbers unless it declares the type that enters and that is
another one. -/
theorem Kernel.dtype_iff {k : Kernel} {params : Entries} {shapes : List TensorShape}
    {out : TensorShape} (h : k.outputShape params shapes = .ok out) :
    out.dtype = .float32 ↔ (k.inherits = true → FirstReal shapes) := by
  cases hk : k.inherits with
  | false => simp [outputShape_dtype hk h]
  | true =>
      obtain ⟨first, hfirst, hout⟩ := outputShape_inherits hk h
      simp [FirstReal, hfirst, hout]

/-! ## Types of tensors -/

/-- A layer of the kernel hands on what enters in its own type: rows always, and what could be
dropped as long as nothing is. -/
def Kernel.HandsOn (k : Kernel) (L : Layer α) (mode : PassMode) : Prop :=
  match k with
  | .flatten => True
  | .dropout => ∃ rate : α, L.params.real "rate" = .ok rate ∧
      Dropout.isActive rate mode.training = false
  | _ => False

theorem Kernel.HandsOn.inherits {k : Kernel} {L : Layer α} {mode : PassMode}
    (h : k.HandsOn L mode) : k.inherits = true := by
  cases k with
  | flatten => rfl
  | dropout => rfl
  | _ => exact h.elim

omit [Scalar α] in
theorem Signal.isReal_reshape {x y : Signal α} {dims : List Nat} (h : x.reshape dims = .ok y) :
    y.isReal = x.isReal := by
  cases x with
  | real t =>
      obtain ⟨s, -, rfl⟩ := map_eq_ok.mp h
      rfl
  | whole t =>
      obtain ⟨s, -, rfl⟩ := map_eq_ok.mp h
      rfl
  | truth t =>
      obtain ⟨s, -, rfl⟩ := map_eq_ok.mp h
      rfl

omit [Scalar α] in
theorem Signal.isReal_flattened {x y : Signal α} (h : x.flattened = .ok y) :
    y.isReal = x.isReal := by
  obtain ⟨b, -, h⟩ := bind_eq_ok.mp h
  split at h
  · cases h
  · exact isReal_reshape h

/-- The first of the tensors that enter holds real numbers. -/
def FirstGiven (args : List (Signal α)) : Prop :=
  ∃ x, args.head? = some x ∧ x.isReal = true

theorem Dropout.isReal_forward {L : Layer α} {args : List (Signal α)} {mode : PassMode}
    {y : Signal α} {g g' : Generator}
    (h : (forward L args mode.training).run g = (.ok y, g')) :
    y.isReal = true ↔ (Kernel.dropout.HandsOn L mode → FirstGiven args) := by
  obtain ⟨x, hfirst, h⟩ := run_lift_bind_eq_ok.mp h
  obtain ⟨rate, hrate, h⟩ := run_lift_bind_eq_ok.mp h
  have hhands : Kernel.dropout.HandsOn L mode ↔ isActive rate mode.training = false := by
    simp [Kernel.HandsOn, hrate]
  rw [hhands]
  cases hactive : isActive rate mode.training with
  | true =>
      rw [hactive, if_pos rfl] at h
      obtain rfl := Except.ok.inj (congrArg Prod.fst h)
      simp [Signal.isReal]
  | false =>
      rw [hactive, if_neg Bool.false_ne_true] at h
      obtain ⟨rfl, -⟩ := run_pure_eq_ok.mp h
      simp [FirstGiven, firstOf_eq_ok hfirst]

/-- What a layer gives is real numbers unless it hands on what enters and that is something else. -/
theorem Kernel.isReal_iff {k : Kernel} {L : Layer α} {args : List (Signal α)} {mode : PassMode}
    {y : Signal α} {g g' : Generator} (h : (k.forward L args mode).run g = (.ok y, g')) :
    y.isReal = true ↔ (k.HandsOn L mode → FirstGiven args) := by
  cases k with
  | flatten =>
      obtain ⟨hy, rfl⟩ := run_lift_eq_ok.mp h
      obtain ⟨x, hx, hy⟩ := bind_eq_ok.mp hy
      simp [HandsOn, FirstGiven, firstOf_eq_ok hx, Signal.isReal_flattened hy]
  | dropout => exact Dropout.isReal_forward h
  | _ =>
      obtain ⟨t, _, -, h⟩ := run_bind_eq_ok.mp h
      obtain ⟨rfl, -⟩ := run_pure_eq_ok.mp h
      simp [HandsOn, Signal.isReal]

/-! ## Layers -/

namespace Layer

/-- The layer hands on what enters in its own type. -/
def HandsOn (L : Layer α) (mode : PassMode) : Prop :=
  ∃ k, Kernel.ofKind? L.kind = some k ∧ k.HandsOn L mode

/-- The layer makes real numbers of what enters although it declares the type that enters. -/
def Casts (L : Layer α) (mode : PassMode) : Prop :=
  ∃ k, Kernel.ofKind? L.kind = some k ∧ k.inherits = true ∧ ¬k.HandsOn L mode

/-- A layer that casts gives the type that it declares if real numbers are declared to enter; a layer
that hands on, if what enters is what is declared to enter; all others do. -/
theorem type_declared_iff {L : Layer α} {k : Kernel} {args : List (Signal α)} {mode : PassMode}
    {y : Signal α} {g g' : Generator} (hk : Kernel.ofKind? L.kind = some k)
    (hout : k.outputShape L.params L.inputShapes = .ok L.outputShape)
    (h : (k.forward L args mode).run g = (.ok y, g')) :
    (y.isReal = true ↔ L.outputShape.dtype = .float32) ↔
      (L.Casts mode → FirstReal L.inputShapes) ∧
        (L.HandsOn mode → (FirstGiven args ↔ FirstReal L.inputShapes)) := by
  have hcasts : L.Casts mode ↔ k.inherits = true ∧ ¬k.HandsOn L mode := by simp [Casts, hk]
  have hhands : L.HandsOn mode ↔ k.HandsOn L mode := by simp [HandsOn, hk]
  rw [Kernel.isReal_iff h, Kernel.dtype_iff hout, hcasts, hhands]
  by_cases hon : k.HandsOn L mode
  · simp [hon, hon.inherits]
  · simp [hon]

end Layer

end BlockNet
