import BlockNet.Graph.Inference
import BlockNet.Proofs.Shape.Written

/-! # What a rule leaves as it is

The rule of a block type is for the axes of one family. A shape that it gives has the rank and the element
type of the one that entered, and the same axes but for those of the family. Pooling divides sizes, so it
leaves what is open. -/

namespace BlockNet

/-- The axes that the rule of a block type is for, in a shape of so many axes. -/
def ruleAxes (blockType : String) (rank : Nat) : List Nat :=
  match blockType with
  | "Dense" | "LSTM" => if rank = 0 then [] else [rank - 1]
  | "Conv2D" => if rank ≠ 4 then [] else [3]
  | "MaxPooling2D" => if rank ≠ 4 then [] else [1, 2]
  | "MultiHeadAttention" => if rank < 3 then [] else [2]
  | _ => []

namespace TensorShape

/-- A shape is kept but for some of its axes. -/
structure Kept (axes : List Nat) (base s : TensorShape) : Prop where
  rank : s.rank = base.rank
  dtype : s.dtype = base.dtype
  others : ∀ i, i ∉ axes → s.dims[i]? = base.dims[i]?

/-- What is open stays open in the same way. -/
def KeepsOpen (base s : TensorShape) : Prop :=
  ∀ (i : Nat) (d : Dynamic), base.dims[i]? = some (.dynamic d) → s.dims[i]? = some (.dynamic d)

variable {axes : List Nat} {base s t : TensorShape}

theorem Kept.refl (axes : List Nat) (s : TensorShape) : s.Kept axes s := ⟨rfl, rfl, fun _ _ => rfl⟩

theorem Kept.trans (h : base.Kept axes s) (h' : s.Kept axes t) : base.Kept axes t :=
  ⟨h'.rank.trans h.rank, h'.dtype.trans h.dtype, fun i hi => (h'.others i hi).trans (h.others i hi)⟩

theorem Replaced.kept {i : Nat} {d : Dim} (h : base.Replaced i d s) (hi : i ∈ axes) :
    base.Kept axes s :=
  ⟨h.rank, h.dtype, fun j hj => h.others j fun heq => hj (heq ▸ hi)⟩

/-- Another size for an axis replaces this axis. -/
theorem exists_replaced {k size : Int} (h : base.withSize k size = .ok s) :
    ∃ (i : Nat) (d : Dim), (k = i ∨ k + base.rank = i) ∧ i < base.rank ∧ base.Replaced i d s := by
  obtain ⟨i, d, hlt, hplace, -, hreplaced⟩ := setDim_eq_ok_iff.mp h
  exact ⟨i, d, hplace, hlt, hreplaced⟩

/-- Pooling an axis replaces a size, or nothing. -/
theorem pooled_eq_ok {pool : Int} {index : Nat} (h : base.pooled pool index = .ok s) :
    s = base ∨ ∃ n d, base.dims[index]? = some (.size n) ∧ base.Replaced index d s := by
  rw [pooled] at h
  split at h
  · rename_i n hn
    split at h
    · cases h
    · obtain ⟨i, d, hplace, hlt, hreplaced⟩ := exists_replaced h
      obtain rfl : i = index := by omega
      exact .inr ⟨n, d, hn, hreplaced⟩
  · exact .inl (Except.ok.inj h).symm

theorem kept_of_pooled (axes : List Nat) {pool : Int} {index : Nat}
    (h : base.pooled pool index = .ok s) (hindex : index ∈ axes) : base.Kept axes s ∧ base.KeepsOpen s := by
  rcases pooled_eq_ok h with rfl | ⟨n, d, hn, hreplaced⟩
  · exact ⟨.refl axes s, fun _ _ h => h⟩
  · refine ⟨hreplaced.kept hindex, fun i e hi => ?_⟩
    rw [hreplaced.others i ?_, hi]
    rintro rfl
    rw [hn] at hi
    cases hi

end TensorShape

open TensorShape

variable {params : Entries} {base s : TensorShape}

/-- A rule for one axis, where there is one. -/
theorem axis_kept {skips : Prop} [Decidable skips] {name : String} {k : Int} {i : Nat}
    (hplace : ¬skips → ∀ j : Nat, j < base.rank → (k = j ∨ k + base.rank = j) → j = i)
    (h : (if skips then .ok base else params.integer name >>= base.withSize k) = .ok s) :
    base.Kept (if skips then [] else [i]) s := by
  split at h
  · obtain rfl := Except.ok.inj h
    exact .refl _ base
  · rename_i hskips
    obtain ⟨size, -, h⟩ := bind_eq_ok.mp h
    obtain ⟨j, d, hj, hlt, hreplaced⟩ := exists_replaced h
    rw [if_neg hskips]
    exact hreplaced.kept (List.mem_singleton.mpr (hplace hskips j hlt hj))

/-- Pooling goes through two axes, and leaves what is open in either. -/
theorem pooling_kept (h : shapeRule "MaxPooling2D" params base = .ok s) :
    base.Kept (ruleAxes "MaxPooling2D" base.rank) s ∧ base.KeepsOpen s := by
  simp only [shapeRule, ruleAxes] at h ⊢
  split at h
  · obtain rfl := Except.ok.inj h
    exact ⟨.refl _ base, fun _ _ hi => hi⟩
  · rename_i hrank
    obtain ⟨pool, -, h⟩ := bind_eq_ok.mp h
    obtain ⟨between, hheight, hwidth⟩ := bind_eq_ok.mp h
    obtain ⟨hkept, hopen⟩ := kept_of_pooled [1, 2] hheight (by simp)
    obtain ⟨hkept', hopen'⟩ := kept_of_pooled [1, 2] hwidth (by simp)
    rw [if_neg hrank]
    exact ⟨hkept.trans hkept', fun i d hi => hopen' i d (hopen i d hi)⟩

/-- A rule gives a shape that is kept but for the axes that the rule is for. -/
theorem shapeRule_kept {blockType : String} (h : shapeRule blockType params base = .ok s) :
    base.Kept (ruleAxes blockType base.rank) s := by
  unfold shapeRule at h
  split at h
  · exact axis_kept (by omega) h
  · exact axis_kept (by omega) h
  · exact axis_kept (by omega) h
  · exact (pooling_kept h).1
  · exact axis_kept (by omega) h
  · obtain rfl := Except.ok.inj h
    exact .refl _ base

/-- A rule reads its settings as whole numbers only. -/
theorem shapeRule_congr {params' : Entries} (blockType : String) (base : TensorShape)
    (h : ∀ name : String, params.integer name = params'.integer name) :
    shapeRule blockType params base = shapeRule blockType params' base := by
  unfold shapeRule
  simp only [h]

end BlockNet
