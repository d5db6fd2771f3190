import BlockNet.Layer.Kernel
import BlockNet.Proofs.Catalog.Settings

/-! # Settings of layers

What the settings of a layer of a stock block hold: whole numbers of at least one for sizes, reals
within their bounds, and the name of an activation. -/

namespace BlockNet

open ParamSpec

/-! ## Reading fitting settings -/

namespace Entries.Fit

variable {params : Entries} {specs : List ParamSpec} {name : String}

theorem integer {default : Int} {low high : Option Int} (h : params.Fit specs)
    (hmem : ParamSpec.integer name default low high ∈ specs) :
    ∃ n, params.get? name = some (.int n) ∧ ∀ m, low = some m → m ≤ n := by
  obtain ⟨v, hv, n, rfl, hlow, -⟩ := h _ hmem
  refine ⟨n, hv, ?_⟩
  rintro m rfl
  exact hlow m rfl

theorem real {default : Float} {low high : Option Float} (h : params.Fit specs)
    (hmem : ParamSpec.real name default low high ∈ specs) :
    ∃ x, params.get? name = some (.real x) ∧ (∀ y, low = some y → ¬x < y) ∧
      ∀ y, high = some y → ¬y < x := by
  obtain ⟨v, hv, x, rfl, hlow, hhigh⟩ := h _ hmem
  refine ⟨x, hv, ?_, ?_⟩
  · rintro y rfl
    exact hlow y rfl
  · rintro y rfl
    exact hhigh y rfl

theorem choice {default : String} {options : List String} (h : params.Fit specs)
    (hmem : ParamSpec.choice name default options ∈ specs) :
    ∃ s ∈ options, params.get? name = some (.text s) := by
  obtain ⟨v, hv, hoption⟩ := h _ hmem
  obtain ⟨s, hs, rfl⟩ := List.mem_map.mp hoption
  exact ⟨s, hs, hv⟩

end Entries.Fit

theorem Entries.integer_eq_ok {params : Entries} {name : String} {n : Int}
    (h : params.get? name = some (.int n)) : params.integer name = .ok n := by
  rw [Entries.integer, Entries.require, h]
  rfl

theorem Entries.real_eq_ok {α : Type} [Scalar α] {params : Entries} {name : String} {x : Float}
    (h : params.get? name = some (.real x)) :
    params.real name = .ok (Scalar.ofFloat x : α) := by
  rw [Entries.real, Entries.require, h]
  rfl

/-- A size among fitting settings. -/
theorem Entries.Fit.size {params : Entries} {specs : List ParamSpec} {name : String} {default : Int}
    {high : Option Int} (h : params.Fit specs)
    (hmem : ParamSpec.integer name default (some 1) high ∈ specs) :
    ∃ n : Nat, 0 < n ∧ params.integer name = .ok (n : Int) := by
  obtain ⟨n, hn, hlow⟩ := h.integer hmem
  have hpos : 1 ≤ n := hlow 1 rfl
  refine ⟨n.toNat, by omega, ?_⟩
  rw [Entries.integer_eq_ok hn, Int.toNat_of_nonneg (by omega)]

/-! ## The settings of kernels -/

namespace Kernel

/-- The schemas of the stock block that becomes a layer of the kernel's kind. -/
def settings (k : Kernel) : List ParamSpec :=
  ((Stock.catalog.get? k.kind).map (·.parameters)).getD []

theorem schemas_activation : Schemas [Stock.activation] :=
  .cons rfl (by simp) (choice_admits _ (by decide)) .nil

theorem schemas_bias : Schemas Stock.biasParams := by
  have hinit : (ParamSpec.real "bias_init" 0.0 none none).Admits (.real 0.0) :=
    real_admits "bias_init" (by simp) (by simp)
  refine .cons rfl ?_ (boolean_admits "use_bias" true)
    (.cons rfl (by simp) (admits_about.mpr hinit) .nil)
  simp [about, ParamSpec.real]

theorem schemas_activation_bias : Schemas (Stock.activation :: Stock.biasParams) := by
  refine .cons rfl ?_ (choice_admits _ (by decide)) schemas_bias
  simp [Stock.biasParams, about, ParamSpec.real, boolean]

theorem schemas_settings (k : Kernel) : Schemas k.settings := by
  cases k with
  | dense =>
      refine .cons rfl ?_ (integer_admits _ (by simp) (by simp)) schemas_activation_bias
      simp [Stock.activation, ParamSpec.choice, Stock.biasParams, about, ParamSpec.real, boolean]
  | convolution =>
      refine .cons rfl ?_ (integer_admits _ (by simp) (by simp)) <|
        .cons rfl ?_ (integer_admits _ (by simp) (by simp)) schemas_activation_bias
      · simp [Stock.activation, ParamSpec.choice, Stock.biasParams, about, ParamSpec.real, boolean,
          ParamSpec.integer]
      · simp [Stock.activation, ParamSpec.choice, Stock.biasParams, about, ParamSpec.real, boolean]
  | pooling => exact .cons rfl (by simp) (integer_admits _ (by simp) (by simp)) .nil
  | flatten => exact .nil
  | dropout => exact .cons rfl (by simp) (real_admits _ (by simp; decide) (by simp; decide)) .nil
  | activation => exact schemas_activation
  | batchNorm =>
      refine .cons rfl ?_ (real_admits _ (by simp; decide) (by simp; decide)) <|
        .cons rfl (by simp) (real_admits _ (by simp; decide) (by simp)) .nil
      simp [ParamSpec.real]
  | layerNorm => exact .cons rfl (by simp) (real_admits _ (by simp; decide) (by simp)) .nil
  | addition => exact .nil
  | concatenation => exact .cons rfl (by simp) (integer_admits _ (by simp) (by simp)) .nil
  | recurrent =>
      refine .cons rfl ?_ (integer_admits _ (by simp) (by simp)) <|
        .cons rfl (by simp) (boolean_admits _ _) .nil
      simp [boolean]
  | attention =>
      refine .cons rfl ?_ (integer_admits _ (by simp) (by simp)) <|
        .cons rfl ?_ (integer_admits _ (by simp) (by simp)) <|
          .cons rfl (by simp) (real_admits _ (by simp; decide) (by simp; decide)) .nil
      · simp [ParamSpec.integer, ParamSpec.real]
      · simp [ParamSpec.real]

/-- A layer of a stock block has settings that fit its schemas. -/
theorem fit_settings {k : Kernel} {d : BlockDefinition} {overrides params : Entries}
    (hd : Stock.catalog.get? k.kind = some d) (h : d.effectiveParams overrides = .ok params) :
    params.Fit k.settings := by
  have hsettings : k.settings = d.parameters := by
    rw [settings, hd]
    rfl
  rw [hsettings]
  exact BlockDefinition.effectiveParams_fit (hsettings ▸ schemas_settings k) h

end Kernel

/-- The activation that fitting settings name. -/
theorem Entries.Fit.activation {params : Entries} {specs : List ParamSpec} (h : params.Fit specs)
    (hmem : Stock.activation ∈ specs) :
    ∃ v a, params.require "activation" = .ok v ∧ Activation.ofValue v = .ok a := by
  obtain ⟨s, hs, hparams⟩ := h.choice hmem
  have hname : ∀ s ∈ Stock.activations, ∃ a, Activation.ofValue (.text s) = .ok a := by
    simp only [Stock.activations, List.forall_mem_cons]
    exact ⟨⟨.relu, rfl⟩, ⟨.sigmoid, rfl⟩, ⟨.tanh, rfl⟩, ⟨.softmax, rfl⟩, ⟨.linear, rfl⟩,
      by simp⟩
  obtain ⟨a, ha⟩ := hname s hs
  refine ⟨.text s, a, ?_, ha⟩
  rw [Entries.require, hparams]
  rfl

end BlockNet
