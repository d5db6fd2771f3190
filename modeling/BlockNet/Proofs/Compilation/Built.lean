import BlockNet.Proofs.Compilation.Outside
import BlockNet.Proofs.Layer.Forward

/-! # What layers are built for

A layer of a stock block has settings that fit its schemas and the shape that its kernel gives. What
it asks of its inputs, and of the mode it is run in, is told from the layer itself. -/

namespace BlockNet

open List

variable {α : Type} [Scalar α]

/-! ## Inputs that can be joined -/

/-- A layer whose inputs can be joined in every batch: sums have as many axes everywhere, and every
key has a value. -/
structure Layer.Regular (L : Layer α) : Prop where
  sums : L.kind = Addition.kind → ∀ s ∈ L.inputShapes, ∀ t ∈ L.inputShapes,
    s.sampleDims.length = t.sampleDims.length
  streams : L.kind = Attention.kind → ∀ q k v a c, Attention.streams L.inputShapes = .ok [q, k, v] →
    k.sequenceSize Attention.kind = .ok a → v.sequenceSize Attention.kind = .ok c →
    a.steps = c.steps

omit [Scalar α] in
theorem Layer.Regular.axes {L : Layer α} (h : L.Regular) {sizes : List (List Nat)}
    (hshapes : Forall₂ TensorShape.Settled L.inputShapes sizes) (hkind : L.kind = Addition.kind) :
    ∀ s ∈ sizes, ∀ t ∈ sizes, s.length = t.length := by
  intro s hs t ht
  obtain ⟨shape, hshape, hsettled⟩ := exists_settled hshapes hs
  obtain ⟨shape', hshape', hsettled'⟩ := exists_settled hshapes ht
  have hlength := h.sums hkind shape hshape shape' hshape'
  simpa only [hsettled.sampleDims, hsettled'.sampleDims, List.length_map] using hlength

omit [Scalar α] in
theorem Layer.Regular.steps {L : Layer α} (h : L.Regular) {sizes : List (List Nat)}
    (hshapes : Forall₂ TensorShape.Settled L.inputShapes sizes) (hne : sizes ≠ [])
    (hkind : L.kind = Attention.kind) (q k v : List Nat)
    (hstreams : Attention.streams sizes = .ok [q, k, v]) :
    volume k.dropLast = volume v.dropLast := by
  obtain ⟨sq, sk, sv, q', k', v', hL, hsizes, -, hk, hv⟩ := Attention.streams_forall₂ hshapes hne
  obtain ⟨rfl, rfl, rfl⟩ : q = q' ∧ k = k' ∧ v = v' := by
    simpa using Except.ok.inj (hstreams.symm.trans hsizes)
  exact h.streams hkind sq sk sv _ _ hL (hk.sequenceSize _) (hv.sequenceSize _)

omit [Scalar α] in
theorem Layer.Regular.of_single {L : Layer α} {s : TensorShape} (h : L.inputShapes = [s]) :
    L.Regular := by
  constructor
  · intro _ a ha b hb
    rw [h, List.mem_singleton] at ha hb
    rw [ha, hb]
  · intro _ q k v a c hstreams ha hc
    rw [h] at hstreams
    obtain ⟨-, rfl, rfl⟩ : s = q ∧ s = k ∧ s = v := by simpa using Except.ok.inj hstreams
    rw [Except.ok.inj (ha.symm.trans hc)]

/-! ## Modes that are allowed -/

/-- Attention needs a rate at which shares can be dropped; all other layers go in every mode. -/
def Layer.Allows (L : Layer α) (mode : PassMode) : Prop :=
  L.kind = Attention.kind →
    ∀ rate : α, Attention.rateOf L.params mode.training = .ok rate → Attention.Allowed rate

theorem Kernel.kind_inj {k k' : Kernel} (h : k.kind = k'.kind) : k = k' := by
  revert h
  cases k <;> cases k' <;> decide

theorem Kernel.allows_iff {k : Kernel} {L : Layer α} (hk : k.kind = L.kind) (mode : PassMode) :
    k.Allows L mode ↔ L.Allows mode := by
  constructor
  · intro h hkind
    exact h (Kernel.kind_inj (hk.trans hkind))
  · rintro h rfl
    exact h hk.symm

/-! ## Layers of stock blocks -/

namespace Compilation

/-- The settings of a layer of a stock block fit its schemas. -/
theorem Made.fit {plan : Plan} (hcatalog : plan.catalog = Stock.catalog)
    {earlier : List (Layer α)} {L : Layer α} {n : Node} {k : Kernel} {d : BlockDefinition}
    {fed : List (Origin × TensorShape)} (h : Made plan earlier L n k d fed) :
    L.params.Fit k.settings := by
  refine Kernel.fit_settings (d := d) ?_ h.params
  rw [kind_of_ofKind? h.kernel, ← hcatalog]
  exact h.definition

/-- A layer of a stock block is made for its shapes. -/
theorem Made.built {plan : Plan} (hcatalog : plan.catalog = Stock.catalog)
    {earlier : List (Layer α)} {L : Layer α} {n : Node} {k : Kernel} {d : BlockDefinition}
    {fed : List (Origin × TensorShape)} (h : Made plan earlier L n k d fed)
    {sizes : List (List Nat)} (hshapes : Forall₂ TensorShape.Settled L.inputShapes sizes) :
    k.Built L sizes := by
  have hfed : fed ≠ [] := by
    rintro rfl
    exact limited_ne_nil k (orInput_ne_nil _) h.origins.symm
  have hne : sizes ≠ [] := by
    rintro rfl
    rw [List.forall₂_nil_right_iff, h.shapes, List.map_eq_nil_iff] at hshapes
    exact hfed hshapes
  exact ⟨h.fit hcatalog, hshapes, hne, h.output, h.weights⟩

/-- Every layer of a compiled model is made for its shapes by the kernel of its kind. -/
theorem Compiled.built {g : Graph} {m : Model α} (hc : Compiled Stock.catalog g m) {L : Layer α}
    (hL : L ∈ m.layers) {k : Kernel} (hk : L.kind = k.kind) {sizes : List (List Nat)}
    (hshapes : Forall₂ TensorShape.Settled L.inputShapes sizes) : k.Built L sizes := by
  obtain ⟨earlier, later, hsplit⟩ := List.append_of_mem hL
  obtain ⟨n, k', d, fed, hmade⟩ := hc.made earlier L later hsplit
  have hkind : k'.kind = L.kind := by
    rw [hmade.kind, kind_of_ofKind? hmade.kernel]
  obtain rfl := Kernel.kind_inj (hkind.trans hk)
  exact hmade.built rfl hshapes

/-- A model of one layer that takes a settled shape, and what can be told of the layer besides. -/
theorem compile_lone {β : Type} {seed : Value} {g : Graph} {input : Option InputSpec} {k : Kernel}
    {shape : TensorShape} {sizes : List Nat} (hshape : shape.Settled sizes) {f : Layer α → β} {b : β}
    (h : ((compile Stock.catalog seed g input).1.toOption.map fun m : Model α =>
      m.layers.map fun L => (L.kind, L.inputShapes, f L)) = some [(k.kind, [shape], b)]) :
    ∃ (m : Model α) (L : Layer α), (compile Stock.catalog seed g input).1 = .ok m ∧
      m.layers = [L] ∧ k.Built L [sizes] ∧ L.inputShapes = [shape] ∧ f L = b := by
  obtain ⟨m, hm, hlayers⟩ := Option.map_eq_some_iff.mp h
  obtain ⟨L, hL, htold⟩ := List.map_eq_singleton_iff.mp hlayers
  simp only [Prod.mk.injEq] at htold
  obtain ⟨hkind, hshapes, htold⟩ := htold
  have hok := toOption_eq_some.mp hm
  have hmem : L ∈ m.layers := hL ▸ List.mem_cons_self
  have hsettled : Forall₂ TensorShape.Settled L.inputShapes [sizes] := by
    rw [hshapes]
    exact .cons hshape .nil
  have hbuilt := (compile_compiled hok).built hmem hkind hsettled
  exact ⟨m, L, hok, hL, hbuilt, hshapes, htold⟩

end Compilation

/-! ## Rates that are doubles -/

/-- Is the layer attention with a rate that is no number? -/
def Layer.hasNanRate (L : Layer Float) : Bool :=
  L.kind == Attention.kind &&
    match L.params.get? "dropout" with
    | some (.real x) => x.isNaN
    | _ => false

/-- A mode is allowed for every layer but for attention in training with a rate that is no
number. -/
theorem Compilation.Compiled.allows_iff {g : Graph} {m : Model Float}
    (hc : Compiled Stock.catalog g m) {L : Layer Float} (hL : L ∈ m.layers) (mode : PassMode) :
    L.Allows mode ↔ ¬(mode.training = true ∧ L.hasNanRate = true) := by
  obtain ⟨earlier, later, hsplit⟩ := List.append_of_mem hL
  obtain ⟨n, k, d, fed, hmade⟩ := hc.made earlier L later hsplit
  have hkind : k.kind = L.kind := by
    rw [hmade.kind, kind_of_ofKind? hmade.kernel]
  by_cases hattention : L.kind = Attention.kind
  · have hk : k = .attention := Kernel.kind_inj (hkind.trans hattention)
    have hfit := hmade.fit rfl
    rw [hk] at hfit
    obtain ⟨x, hx, hlow, hhigh⟩ := hfit.real
      (List.mem_cons_of_mem _ (List.mem_cons_of_mem _ List.mem_cons_self))
    have hnan : L.hasNanRate = x.isNaN := by
      rw [Layer.hasNanRate, hx, hattention, beq_self_eq_true, Bool.true_and]
    have hrate := Attention.rateOf_eq_ok Float hx mode.training
    have hallows : L.Allows mode ↔
        Attention.Allowed (if mode.training then Scalar.ofFloat x else 0 : Float) :=
      ⟨fun h => h hattention _ hrate,
        fun h _ rate hsame => Except.ok.inj (hrate.symm.trans hsame) ▸ h⟩
    have hsame : (Scalar.ofFloat x : Float) = x := rfl
    rw [hallows, hnan, hsame]
    cases mode.training with
    | true => simpa using Attention.allowed_iff_not_nan (hlow 0.0 rfl) (hhigh 0.99 rfl)
    | false => simpa using Attention.allowed_zero
  · simp [Layer.Allows, Layer.hasNanRate, hattention]

end BlockNet
