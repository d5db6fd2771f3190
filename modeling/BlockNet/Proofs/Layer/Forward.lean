import BlockNet.Proofs.Layer.Attention

/-! # Layers give what they declare

The shape that a kernel declares for settled shapes is settled, and it is the shape of what the
kernel gives for batches of samples. The one thing that can go wrong is attention in training. -/

namespace BlockNet

open List

variable {α : Type} [Scalar α]

namespace Kernel

/-- What a layer is made of, on shapes that are settled. -/
structure Built (k : Kernel) (layer : Layer α) (sizes : List (List Nat)) : Prop where
  fit : layer.params.Fit k.settings
  shapes : Forall₂ TensorShape.Settled layer.inputShapes sizes
  nonempty : sizes ≠ []
  output : k.outputShape layer.params layer.inputShapes = .ok layer.outputShape
  weights : ∃ g g', (k.build layer.params layer.inputShapes).run g = (.ok layer.weights, g')

/-- Attention needs a rate at which shares can be dropped; all else goes in every mode. -/
def Allows (k : Kernel) (layer : Layer α) (mode : PassMode) : Prop :=
  k = .attention →
    ∀ rate : α, Attention.rateOf layer.params mode.training = .ok rate → Attention.Allowed rate

/-- From batches of samples of some sizes a layer gives a batch of samples of other sizes in the
modes that its kernel allows, and a fault in all others. -/
structure Keeps (k : Kernel) (layer : Layer α) (sizes : List (List Nat)) (out : List Nat) :
    Prop where
  gives : ∀ (b : Nat) (signals : List (Signal α)) (mode : PassMode) (g : Generator), 0 < b →
    Batches b signals sizes → k.Allows layer mode →
    ∃ y g', (k.forward layer signals mode).run g = (.ok y, g') ∧ y.dims = b :: out
  fails : ∀ (b : Nat) (signals : List (Signal α)) (mode : PassMode) (g : Generator), 0 < b →
    Batches b signals sizes → ¬k.Allows layer mode →
    ∃ fault g', (k.forward layer signals mode).run g = (.error fault, g')

theorem allows_of_ne {k : Kernel} (hk : k ≠ .attention) (layer : Layer α) (mode : PassMode) :
    k.Allows layer mode := fun h => absurd h hk

/-- Only attention can fail. -/
theorem Keeps.of_ne {k : Kernel} {layer : Layer α} {sizes : List (List Nat)} {out : List Nat}
    (hk : k ≠ .attention)
    (h : ∀ (b : Nat) (signals : List (Signal α)) (mode : PassMode) (g : Generator), 0 < b →
      Batches b signals sizes →
      ∃ y g', (k.forward layer signals mode).run g = (.ok y, g') ∧ y.dims = b :: out) :
    k.Keeps layer sizes out :=
  ⟨fun b signals mode g hb hsignals _ => h b signals mode g hb hsignals,
    fun _ _ mode _ _ _ hnot => absurd (allows_of_ne hk layer mode) hnot⟩

/-- Does the kernel give its result without a stream? -/
def isQuiet (k : Kernel) : Bool := k != .flatten && k != .dropout && k != .attention

theorem forward_of_isQuiet {k : Kernel} (hk : k.isQuiet = true) (layer : Layer α)
    (signals : List (Signal α)) (mode : PassMode) : k.forward layer signals mode =
      (liftM (k.quietForward layer signals) >>= fun y => pure (.real y)) := by
  cases k with
  | flatten => cases hk
  | dropout => cases hk
  | attention => cases hk
  | _ => rfl

theorem forward_quiet {k : Kernel} (hk : k.isQuiet = true) {layer : Layer α}
    {signals : List (Signal α)} {y : Tensor α} (h : k.quietForward layer signals = .ok y)
    (mode : PassMode) (g : Generator) :
    (k.forward layer signals mode).run g = (.ok (.real y), g) := by
  rw [forward_of_isQuiet hk, run_lift_bind_ok h]
  rfl

theorem Keeps.of_quiet {k : Kernel} {layer : Layer α} {sizes : List (List Nat)} {out : List Nat}
    (hk : k.isQuiet = true)
    (h : ∀ (b : Nat) (signals : List (Signal α)), 0 < b → Batches b signals sizes →
      ∃ y, k.quietForward layer signals = .ok y ∧ y.dims = b :: out) : k.Keeps layer sizes out := by
  refine Keeps.of_ne (by rintro rfl; cases hk) ?_
  intro b signals mode g hb hsignals
  obtain ⟨y, hy, hdims⟩ := h b signals hb hsignals
  exact ⟨.real y, g, forward_quiet hk hy mode g, hdims⟩

theorem Keeps.of_maps {k : Kernel} {layer : Layer α} {s : List Nat} {sizes : List (List Nat)}
    {out : List Nat} (hk : k.isQuiet = true) (h : Maps (k.quietForward layer) s out) :
    k.Keeps layer (s :: sizes) out := by
  refine Keeps.of_quiet hk ?_
  intro b signals hb hsignals
  cases hsignals with
  | cons hx _ => exact h b _ _ hb hx

/-- A layer of inputs has a first shape. -/
theorem Built.first {k : Kernel} {layer : Layer α} {sizes : List (List Nat)}
    (h : k.Built layer sizes) : ∃ shape shapes s rest,
      layer.inputShapes = shape :: shapes ∧ sizes = s :: rest ∧ shape.Settled s := by
  have hshapes := h.shapes
  cases hlist : layer.inputShapes with
  | nil => exact absurd (List.forall₂_nil_left_iff.mp (hlist ▸ hshapes)) h.nonempty
  | cons shape shapes =>
      rw [hlist] at hshapes
      cases hshapes with
      | cons hs _ => exact ⟨shape, shapes, _, _, rfl, rfl, hs⟩

theorem flatten_keeps {layer : Layer α} {s : List Nat} {rest : List (List Nat)}
    (hpos : ∀ n ∈ s, 0 < n) : flatten.Keeps layer (s :: rest) [volume s] := by
  refine Keeps.of_ne (by decide) ?_
  intro b signals mode g hb hsignals
  cases hsignals with
  | @cons x _ signals _ hx _ =>
      obtain ⟨y, hy, hdims⟩ := Signal.flattened_eq_ok hb hpos hx
      refine ⟨y, g, ?_, hdims⟩
      rw [forward, firstOf_cons, ok_bind, hy]
      rfl

theorem dropout_keeps {layer : Layer α} {s : List Nat} {rest : List (List Nat)}
    (hfit : layer.params.Fit dropout.settings) : dropout.Keeps layer (s :: rest) s := by
  obtain ⟨rate, hrate, -⟩ := hfit.real List.mem_cons_self
  refine Keeps.of_ne (by decide) ?_
  intro b signals mode g hb hsignals
  cases hsignals with
  | cons hx _ =>
      obtain ⟨y, g', hrun, hdims⟩ := Dropout.forward_run hrate mode.training g
      exact ⟨y, g', hrun, hdims.trans hx⟩

theorem activation_maps {layer : Layer α} {s : List Nat}
    (hfit : layer.params.Fit activation.settings)
    (hne : s ≠ []) (hpos : ∀ n ∈ s, 0 < n) : Maps (activation.quietForward layer) s s := by
  intro b x xs hb hx
  have hsplit : x.toReal.dims = (b :: s.dropLast) ++ [s.getLast hne] := by
    rw [Signal.dims_toReal, hx, List.cons_append, List.dropLast_append_getLast]
  have hwidth : x.toReal.width ≠ 0 := by
    rw [Tensor.width_eq hsplit]
    exact Nat.ne_of_gt (hpos _ (List.getLast_mem hne))
  obtain ⟨y, hy, hdims⟩ := Activation.applyNamed_eq_ok hfit List.mem_cons_self hwidth
  refine ⟨y, ?_, by rw [hdims, Signal.dims_toReal, hx]⟩
  rw [quietForward, firstOf_cons, ok_bind, hy]
  all_goals simp

theorem attention_keeps {layer : Layer α} {sizes : List (List Nat)}
    (h : attention.Built layer sizes)
    (hsteps : ∀ q k v, Attention.streams sizes = .ok [q, k, v] →
      volume k.dropLast = volume v.dropLast) :
    ∃ out, layer.outputShape.Settled out ∧ attention.Keeps layer sizes out := by
  obtain ⟨g₀, g₁, hbuild⟩ := h.weights
  obtain ⟨out, hsettled, hrun⟩ :=
    Attention.forward_run h.fit h.shapes h.nonempty hsteps h.output hbuild
  obtain ⟨x, hx, -⟩ := h.fit.real
    (List.mem_cons_of_mem _ (List.mem_cons_of_mem _ List.mem_cons_self))
  have hrate := fun mode : PassMode => Attention.rateOf_eq_ok α hx mode.training
  have hforward : ∀ signals mode, attention.forward layer signals mode =
      (Attention.forward layer signals mode >>= fun y => pure (.real y)) := fun _ _ => rfl
  refine ⟨out, hsettled, ?_, ?_⟩
  · intro b signals mode g hb hsignals hallows
    obtain ⟨e, f, hdims, hresult⟩ := hrun b signals mode _ g hb hsignals (hrate mode)
    obtain ⟨mask, hmask⟩ := Attention.maskOf_eq_ok (hallows rfl _ (hrate mode)) e mode.streamed g
    rw [hmask] at hresult
    obtain ⟨g', hdone⟩ : ∃ g', (Attention.forward layer signals mode).run g = (.ok (f mask), g') :=
      ⟨_, hresult⟩
    refine ⟨.real (f mask), g', ?_, hdims mask⟩
    rw [hforward, run_bind_ok hdone]
    rfl
  · intro b signals mode g hb hsignals hnot
    have hbad : ¬Attention.Allowed
        (if mode.training then Scalar.ofFloat x else 0 : α) := by
      intro hallowed
      refine hnot fun _ rate h => ?_
      rwa [← Except.ok.inj ((hrate mode).symm.trans h)]
    obtain ⟨e, f, -, hresult⟩ := hrun b signals mode _ g hb hsignals (hrate mode)
    rw [Attention.maskOf_eq_error hbad] at hresult
    obtain ⟨g', hdone⟩ : ∃ g', (Attention.forward layer signals mode).run g =
        (.error (.mishap .badTensor), g') := ⟨_, hresult⟩
    exact ⟨_, g', by rw [hforward, run_bind_error hdone]⟩

/-- Every kernel keeps what it declares. Sums need as many axes everywhere, and every key needs a
value. -/
theorem Built.keeps {k : Kernel} {layer : Layer α} {sizes : List (List Nat)}
    (h : k.Built layer sizes)
    (haxes : k = .addition → ∀ s ∈ sizes, ∀ t ∈ sizes, s.length = t.length)
    (hsteps : k = .attention → ∀ q k v, Attention.streams sizes = .ok [q, k, v] →
      volume k.dropLast = volume v.dropLast) :
    ∃ out, layer.outputShape.Settled out ∧ k.Keeps layer sizes out := by
  obtain ⟨shape, shapes, s, rest, hlist, hsizes, hs⟩ := h.first
  obtain ⟨g, g', hbuild⟩ := h.weights
  have hout := h.output
  rw [hlist] at hbuild hout
  rw [hsizes]
  cases k with
  | dense =>
      obtain ⟨out, hsettled, hmaps⟩ := Dense.forward_maps h.fit hs hout hbuild
      exact ⟨out, hsettled, .of_maps rfl hmaps⟩
  | convolution =>
      obtain ⟨out, hsettled, hmaps⟩ := Convolution.forward_maps h.fit hlist hs hout hbuild
      exact ⟨out, hsettled, .of_maps rfl hmaps⟩
  | pooling =>
      obtain ⟨out, hsettled, hmaps⟩ := Pooling.forward_maps h.fit hlist hs hout
      exact ⟨out, hsettled, .of_maps rfl hmaps⟩
  | flatten => exact ⟨[volume s], flatShape_settled hs hout, flatten_keeps hs.positive⟩
  | dropout => exact ⟨s, Except.ok.inj hout ▸ hs, dropout_keeps h.fit⟩
  | activation =>
      have hmaps := activation_maps h.fit hs.nonempty hs.positive
      exact ⟨s, Except.ok.inj hout ▸ hs, .of_maps rfl hmaps⟩
  | batchNorm =>
      obtain ⟨epsilon, hepsilon, -⟩ := h.fit.real (List.mem_cons_of_mem _ List.mem_cons_self)
      have hweights : Normalization.build batchNorm.kind (shape :: shapes) = .ok layer.weights :=
        (run_lift_eq_ok.mp hbuild).1
      exact ⟨s, Except.ok.inj hout ▸ hs,
        .of_maps rfl (Normalization.forwardBatch_maps hs hepsilon hweights)⟩
  | layerNorm =>
      obtain ⟨epsilon, hepsilon, -⟩ := h.fit.real List.mem_cons_self
      have hweights : Normalization.build layerNorm.kind (shape :: shapes) = .ok layer.weights :=
        (run_lift_eq_ok.mp hbuild).1
      exact ⟨s, Except.ok.inj hout ▸ hs,
        .of_maps rfl (Normalization.forwardRows_maps hs hepsilon hweights)⟩
  | addition =>
      obtain ⟨out, hsettled, hbatches⟩ := Addition.forward_batches α h.shapes (haxes rfl) h.output
      rw [← hsizes]
      exact ⟨out, hsettled, .of_quiet rfl fun b signals _ => hbatches b signals⟩
  | concatenation =>
      obtain ⟨out, hsettled, hbatches⟩ := Concatenation.forward_batches h.shapes h.output
      rw [← hsizes]
      exact ⟨out, hsettled, .of_quiet rfl fun b signals _ => hbatches b signals⟩
  | recurrent =>
      obtain ⟨out, hsettled, hmaps⟩ := Recurrent.forward_maps h.fit hlist hs hout hbuild
      exact ⟨out, hsettled, .of_maps rfl hmaps⟩
  | attention => exact hsizes ▸ attention_keeps h (hsteps rfl)

end Kernel

end BlockNet
