import BlockNet.Layer.Kernel
import BlockNet.Proofs.Tensor.Axes

/-! # The weights of new layers

A weight that was drawn or filled has the name and the axes that were asked for. -/

namespace BlockNet

variable {α : Type} [Scalar α]

theorem axisSizes_eq_ok {dims : List Int} {sizes : List Nat} (h : axisSizes dims = .ok sizes) :
    sizes = dims.map Int.toNat := by
  rw [axisSizes] at h
  split at h
  · cases h
  · split at h
    · exact (Except.ok.inj h).symm
    · cases h

theorem drawnSizes_eq_ok {dims : List Int} {sizes : List Nat} (h : drawnSizes dims = .ok sizes) :
    sizes = dims.map Int.toNat := by
  rw [drawnSizes] at h
  split at h
  · exact (Except.ok.inj h).symm
  · exact axisSizes_eq_ok h

theorem mapM_toInt (dims : List Int) : (dims.map Value.int).mapM Value.toInt = .ok dims := by
  induction dims with
  | nil => rfl
  | cons d dims ih =>
      rw [List.map_cons, List.mapM_cons, ih]
      rfl

theorem fanUniform_eq_ok {dims : List Int} {fanIn fanOut : Number} {t : Tensor α}
    {g g' : Generator}
    (h : (fanUniform (.list (dims.map .int)) fanIn fanOut).run g = (.ok t, g')) :
    t.dims = dims.map Int.toNat := by
  rw [fanUniform] at h
  obtain ⟨bound, g₁, -, h⟩ := run_bind_eq_ok.mp h
  obtain ⟨sizes, g₂, hsizes, h⟩ := run_bind_eq_ok.mp h
  obtain ⟨start, g₃, -, h⟩ := run_bind_eq_ok.mp h
  obtain ⟨_, g₄, -, h⟩ := run_bind_eq_ok.mp h
  obtain ⟨rfl, -⟩ := run_pure_eq_ok.mp h
  obtain ⟨hsizes, -⟩ := run_lift_eq_ok.mp hsizes
  simp only [Value.toList, bind, Except.bind, mapM_toInt] at hsizes
  exact drawnSizes_eq_ok hsizes

theorem drawnWeight_eq_ok {name : String} {dims : List Int} {fanIn fanOut : Int} {w : Weight α}
    {g g' : Generator} (h : (drawnWeight name dims fanIn fanOut).run g = (.ok w, g')) :
    w.name = name ∧ w.tensor.dims = dims.map Int.toNat := by
  rw [drawnWeight] at h
  obtain ⟨t, g₁, ht, h⟩ := run_bind_eq_ok.mp h
  obtain ⟨rfl, -⟩ := run_pure_eq_ok.mp h
  exact ⟨rfl, fanUniform_eq_ok ht⟩

theorem constantWeight_eq_ok {name : String} {dims : List Int} {value : Value} {w : Weight α}
    (h : constantWeight name dims value = .ok w) :
    w.name = name ∧ w.tensor.dims = dims.map Int.toNat := by
  rw [constantWeight] at h
  obtain ⟨t, ht, h⟩ := bind_eq_ok.mp h
  obtain rfl := Except.ok.inj h
  rw [constantTensor] at ht
  obtain ⟨x, -, ht⟩ := bind_eq_ok.mp ht
  obtain ⟨sizes, hsizes, ht⟩ := bind_eq_ok.mp ht
  obtain rfl := Except.ok.inj ht
  exact ⟨rfl, axisSizes_eq_ok hsizes⟩

omit [Scalar α] in
/-- A weight is found under its name behind weights of other names. -/
theorem Layer.weight_eq_ok {layer : Layer α} (front : List (Weight α)) {back : List (Weight α)}
    {w : Weight α} (h : layer.weights = front ++ w :: back)
    (hfront : ∀ v ∈ front, v.name ≠ w.name) :
    layer.weight w.name = .ok w.tensor := by
  have hnone : front.find? (·.name == w.name) = none := by
    rw [List.find?_eq_none]
    intro v hv
    simpa using hfront v hv
  rw [Layer.weight, Layer.weight?, h, List.find?_append, hnone, Option.none_or,
    List.find?_cons_of_pos (by simp)]
  rfl

omit [Scalar α] in
/-- A weight is found under its name if no two weights share one. -/
theorem Layer.weight_of_mem {layer : Layer α} (h : (layer.weights.map Weight.name).Nodup)
    {w : Weight α} (hw : w ∈ layer.weights) : layer.weight w.name = .ok w.tensor := by
  obtain ⟨front, back, hsplit⟩ := List.append_of_mem hw
  refine Layer.weight_eq_ok front hsplit ?_
  rw [hsplit, List.map_append, List.map_cons, List.nodup_append] at h
  intro v hv
  exact h.2.2 v.name (List.mem_map_of_mem hv) w.name List.mem_cons_self

end BlockNet
