import BlockNet.Proofs.Compilation.Wiring
import BlockNet.Proofs.Layer.Names

/-! # The keys of compiled weights

A compiled layer has the weights that its kernel has built. Layers have different ids and the weights
of a layer different names, so all weights of a model are under different keys. -/

namespace BlockNet

/-- A search finds the only member of a list that it can find. -/
theorem find?_of_unique {β : Type} {xs : List β} {q : β → Bool} {x : β} (hx : x ∈ xs) (hq : q x = true)
    (hunique : ∀ y ∈ xs, q y = true → y = x) : xs.find? q = some x := by
  cases hfind : xs.find? q with
  | none => exact absurd hq (List.find?_eq_none.mp hfind x hx)
  | some y => rw [hunique y (List.mem_of_find?_eq_some hfind) (List.find?_some hfind)]

variable {α : Type}

/-- Layers of different ids, each with weights as a kernel builds them, keep them under different
keys. -/
theorem Model.nodup_keys {m : Model α} (hids : (m.layers.map (·.id)).Nodup)
    (hlisted : ∀ L ∈ m.layers, Weight.Listed L.weights) : (m.weights.map (·.1)).Nodup := by
  rw [Model.weights, List.map_flatMap, List.nodup_flatMap]
  constructor
  · intro L hL
    rw [List.map_map]
    refine List.Nodup.map_on (fun w hw v hv hkey => ?_) (hlisted L hL).nodup.of_map
    have hnames := Layer.weightKey_inj ((hlisted L hL).named w hw) ((hlisted L hL).named v hv) hkey
    exact List.inj_on_of_nodup_map (hlisted L hL).nodup hw hv hnames.2
  · refine (List.pairwise_map.mp hids).imp_of_mem fun {K L} hK hL hne => ?_
    rw [Function.onFun_apply, List.map_map, List.map_map]
    intro key hkey hkey'
    obtain ⟨w, hw, rfl⟩ := List.mem_map.mp hkey
    obtain ⟨v, hv, hsame⟩ := List.mem_map.mp hkey'
    exact hne (Layer.weightKey_inj ((hlisted K hK).named w hw) ((hlisted L hL).named v hv)
      hsame.symm).1

namespace Compilation

variable [Scalar α] {catalog : Catalog} {g : Graph} {m : Model α}

/-- The weights of a compiled layer are those that its kernel has built. -/
theorem Compiled.listed (h : Compiled catalog g m) {L : Layer α} (hL : L ∈ m.layers) :
    Weight.Listed L.weights := by
  obtain ⟨earlier, later, hsplit⟩ := List.append_of_mem hL
  obtain ⟨n, k, d, fed, hmade⟩ := h.made earlier L later hsplit
  obtain ⟨r, r', hbuild⟩ := hmade.weights
  exact Kernel.build_listed hbuild

theorem Compiled.nodup_keys (h : Compiled catalog g m) : (m.weights.map (·.1)).Nodup :=
  Model.nodup_keys h.nodup fun _ => h.listed

end Compilation

end BlockNet
