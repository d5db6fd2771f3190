import BlockNet.Layer.Axes
import BlockNet.Proofs.Outcome

/-! # Settled shapes

The views of a shape are those of the sizes of its sample, all of which must be fixed. A shape is
settled if all of it is known but the size of the batch. Every view of a settled shape is known as
well, and none of its axes is empty. -/

namespace BlockNet

theorem volume_pos {sizes : List Nat} (h : ∀ n ∈ sizes, 0 < n) : 0 < volume sizes := by
  induction sizes with
  | nil => simp
  | cons n sizes ih =>
      obtain ⟨hn, hsizes⟩ := List.forall_mem_cons.mp h
      rw [volume_cons]
      exact Nat.mul_pos hn (ih hsizes)

/-- A batch axis, followed by at least one axis of a fixed size, none of them empty. -/
structure TensorShape.Settled (s : TensorShape) (sizes : List Nat) : Prop where
  dims : s.dims = Dim.batch :: sizes.map Dim.size
  nonempty : sizes ≠ []
  positive : ∀ n ∈ sizes, 0 < n

namespace TensorShape

theorem sizes?_map (sizes : List Nat) : sizes? (sizes.map Dim.size) = some sizes := by
  induction sizes with
  | nil => rfl
  | cons n sizes ih =>
      rw [sizes?] at ih ⊢
      rw [List.map_cons, List.mapM_cons, ih]
      rfl

variable {s : TensorShape} {sizes : List Nat}

/-! ## Views of shapes -/

theorem sizes?_eq_some {dims : List Dim} :
    sizes? dims = some sizes ↔ dims = sizes.map Dim.size := by
  constructor
  · intro h
    induction dims generalizing sizes with
    | nil => cases h; rfl
    | cons d dims ih =>
        rw [sizes?, List.mapM_cons] at h
        cases d with
        | dynamic d => cases h
        | size n =>
            simp only [Dim.size?, Option.bind_eq_bind, Option.bind_some, Option.bind_eq_some_iff,
              pure, Option.some.injEq] at h
            obtain ⟨rest, hrest, rfl⟩ := h
            rw [List.map_cons, ih hrest]
  · rintro rfl
    exact sizes?_map sizes

theorem fixedSizes_eq_ok {kind what : String} {dims : List Dim} :
    s.fixedSizes kind dims what = .ok sizes ↔ sizes? dims = some sizes := by
  rw [fixedSizes]
  cases sizes? dims <;> simp

theorem length_of_ofSizes? {image : ImageSize}
    (h : ImageSize.ofSizes? sizes = some image) : sizes.length ≠ 0 ∧ sizes.length ≤ 3 := by
  rcases sizes with _ | ⟨a, _ | ⟨b, _ | ⟨c, _ | ⟨d, sizes⟩⟩⟩⟩ <;> simp_all [ImageSize.ofSizes?]

/-- The image view of a shape is that of its sizes, all of which must be fixed. -/
theorem imageSize_eq_ok {kind : String} {image : ImageSize} : s.imageSize kind = .ok image ↔
    ∃ sizes, sizes? s.sampleDims = some sizes ∧ ImageSize.ofSizes? sizes = some image := by
  simp only [imageSize]
  constructor
  · intro h
    split at h
    · cases h
    · obtain ⟨sizes, hsizes, h⟩ := bind_eq_ok.mp h
      refine ⟨sizes, fixedSizes_eq_ok.mp hsizes, ?_⟩
      split at h
      · rename_i image' himage
        rw [himage, Except.ok.inj h]
      · cases h
  · rintro ⟨sizes, hsizes, himage⟩
    have hlength : s.sampleDims.length = sizes.length := by
      rw [sizes?_eq_some.mp hsizes, List.length_map]
    have hrank := length_of_ofSizes? himage
    rw [if_neg (by omega), fixedSizes_eq_ok.mpr hsizes, ok_bind, himage]

/-- The sequence view of a shape is that of its sizes, all of which must be fixed. -/
theorem sequenceSize_eq_ok {kind : String} {q : SequenceSize} : s.sequenceSize kind = .ok q ↔
    ∃ sizes, sizes? s.sampleDims = some sizes ∧ SequenceSize.ofSizes? sizes = some q := by
  simp only [sequenceSize]
  constructor
  · intro h
    split at h
    · cases h
    · obtain ⟨sizes, hsizes, h⟩ := bind_eq_ok.mp h
      refine ⟨sizes, fixedSizes_eq_ok.mp hsizes, ?_⟩
      split at h
      · rename_i q' hq
        rw [hq, Except.ok.inj h]
      · cases h
  · rintro ⟨sizes, hsizes, hq⟩
    have hne : ¬s.sampleDims.isEmpty = true := by
      rw [sizes?_eq_some.mp hsizes, List.isEmpty_map, List.isEmpty_iff]
      rintro rfl
      cases hq
    rw [if_neg hne, fixedSizes_eq_ok.mpr hsizes, ok_bind, hq]

/-! ## Settled shapes -/

theorem Settled.sampleDims (h : s.Settled sizes) : s.sampleDims = sizes.map Dim.size := by
  rw [TensorShape.sampleDims, h.dims]
  rfl

theorem Settled.rank (h : s.Settled sizes) : s.rank = sizes.length + 1 := by
  rw [TensorShape.rank, h.dims, List.length_cons, List.length_map]

theorem Settled.sampleSizes (h : s.Settled sizes) : sizes? s.sampleDims = some sizes := by
  rw [h.sampleDims, sizes?_map]

theorem Settled.unique {sizes' : List Nat} (h : s.Settled sizes) (h' : s.Settled sizes') :
    sizes = sizes' :=
  Option.some.inj (h.sampleSizes.symm.trans h'.sampleSizes)

theorem Settled.fixedSizes (h : s.Settled sizes) (kind what : String) :
    s.fixedSizes kind s.sampleDims what = .ok sizes :=
  fixedSizes_eq_ok.mpr h.sampleSizes

theorem Settled.featureSize (h : s.Settled sizes) (kind : String) :
    s.featureSize kind = .ok (sizes.getLast h.nonempty) := by
  have hlast : s.dims.getLast? = some (.size (sizes.getLast h.nonempty)) := by
    rw [h.dims, List.getLast?_cons, List.getLast?_map, List.getLast?_eq_some_getLast h.nonempty]
    rfl
  rw [TensorShape.featureSize, hlast]
  rfl

theorem Settled.sequenceSize (h : s.Settled sizes) (kind : String) :
    s.sequenceSize kind = .ok ⟨volume sizes.dropLast, sizes.getLast h.nonempty⟩ := by
  refine sequenceSize_eq_ok.mpr ⟨sizes, h.sampleSizes, ?_⟩
  rw [SequenceSize.ofSizes?, List.getLast?_eq_some_getLast h.nonempty, Option.map_some]

/-- The image view of a settled shape is the image view of its sizes. -/
theorem Settled.ofSizes?_of_imageSize (h : s.Settled sizes) {kind : String} {image : ImageSize}
    (himage : s.imageSize kind = .ok image) : ImageSize.ofSizes? sizes = some image := by
  obtain ⟨sizes', hsizes, himage⟩ := imageSize_eq_ok.mp himage
  rwa [Option.some.inj (h.sampleSizes.symm.trans hsizes)]

end TensorShape

/-- An image view holds all entries of a sample. -/
theorem ImageSize.size_of_ofSizes? {sizes : List Nat} {image : ImageSize}
    (h : ImageSize.ofSizes? sizes = some image) : image.size = volume sizes := by
  unfold ofSizes? at h
  split at h
  · obtain rfl := Option.some.inj h
    simp [ImageSize.size, Nat.mul_assoc]
  · obtain rfl := Option.some.inj h
    simp [ImageSize.size]
  · rename_i n
    obtain rfl := Option.some.inj h
    split
    · rename_i hsquare
      simp [ImageSize.size, hsquare]
    · simp [ImageSize.size]
  · cases h

/-- A sequence view holds all entries of a sample. -/
theorem SequenceSize.size_of_ofSizes? {sizes : List Nat} {q : SequenceSize}
    (h : SequenceSize.ofSizes? sizes = some q) : q.steps * q.features = volume sizes := by
  obtain ⟨last, hlast, rfl⟩ := Option.map_eq_some_iff.mp h
  obtain ⟨front, rfl⟩ := List.getLast?_eq_some_iff.mp hlast
  rw [List.dropLast_concat, volume_append, volume_cons, volume_nil, Nat.mul_one]

/-- An image view holds all entries of a sample, and no side of it is empty. -/
theorem ImageSize.ofSizes?_eq_some {sizes : List Nat} {image : ImageSize}
    (h : ImageSize.ofSizes? sizes = some image) (hpos : ∀ n ∈ sizes, 0 < n) :
    0 < image.height ∧ 0 < image.width ∧ 0 < image.channels ∧ image.size = volume sizes := by
  have hsize : image.size = volume sizes := size_of_ofSizes? h
  have hproduct : 0 < image.size := hsize ▸ volume_pos hpos
  rw [size] at hproduct
  have hplane := Nat.pos_of_mul_pos_right hproduct
  exact ⟨Nat.pos_of_mul_pos_right hplane, Nat.pos_of_mul_pos_left hplane,
    Nat.pos_of_mul_pos_left hproduct, hsize⟩

/-- Sizes that are not negative make a shape. -/
theorem TensorShape.ofSample_map (sizes : List Nat) :
    TensorShape.ofSample (sizes.map fun n : Nat => (n : Int)) =
      .ok (batched (sizes.map Dim.size) .float32) := by
  have hdims : (sizes.map fun n : Nat => (n : Int)).mapM Dim.ofInt =
      .ok (sizes.map Dim.size) := by
    induction sizes with
    | nil => rfl
    | cons n sizes ih =>
        rw [List.map_cons, List.mapM_cons, ih]
        rfl
  rw [ofSample, hdims]
  rfl

/-- Sizes that are not empty make a settled shape. -/
theorem TensorShape.ofSample_settled {sizes : List Nat} (hne : sizes ≠ [])
    (hpos : ∀ n ∈ sizes, 0 < n) :
    ∃ s, TensorShape.ofSample (sizes.map fun n : Nat => (n : Int)) = .ok s ∧ s.Settled sizes :=
  ⟨batched (sizes.map Dim.size) .float32, ofSample_map sizes, rfl, hne, hpos⟩

/-- A place that an index means is a place in the list. -/
theorem TensorShape.position?_lt {length i : Nat} {index : Int}
    (h : position? length index = some i) : i < length := by
  rw [position?, Option.ite_none_right_eq_some] at h
  obtain ⟨hrange, h⟩ := h
  obtain rfl := Option.some.inj h
  omega

theorem TensorShape.position?_natCast {length i : Nat} (h : i < length) :
    position? length i = some i := by
  have hsign : ¬(i : Int) < 0 := by omega
  have hrange : 0 ≤ (i : Int) ∧ (i : Int) < length := by omega
  simp only [position?, hsign, if_false, hrange, and_self, if_true, Int.toNat_natCast]

theorem TensorShape.position?_last {length : Nat} (h : length ≠ 0) :
    position? length (-1) = some (length - 1) := by
  have hrange : 0 ≤ (-1 : Int) + length ∧ (-1 : Int) + length < length := by omega
  have hsign : (-1 : Int) < 0 := by omega
  simp only [position?, hsign, if_true, hrange, and_self, Option.some.injEq]
  omega

/-- Another size for an axis that is there. -/
theorem TensorShape.exists_withSize {s : TensorShape} {index : Int} {i : Nat}
    (h : position? s.rank index = some i) (n : Nat) : ∃ s', s.withSize index n = .ok s' := by
  rw [TensorShape.withSize, TensorShape.setDim, ← TensorShape.rank, h]
  exact ⟨_, rfl⟩

/-- Another size for an axis of the samples. -/
theorem TensorShape.Settled.withSize {s : TensorShape} {sizes : List Nat} (h : s.Settled sizes)
    {index : Int} {i n : Nat} (hi : position? s.rank index = some (i + 1)) (hn : 0 < n) :
    ∃ s', s.withSize index n = .ok s' ∧ s'.Settled (sizes.set i n) := by
  refine ⟨{ s with dims := s.dims.set (i + 1) (.size n) }, ?_, ?_, ?_, ?_⟩
  · rw [TensorShape.withSize, TensorShape.setDim, ← TensorShape.rank, hi]
    rfl
  · rw [h.dims, List.set_cons_succ, List.map_set]
  · rw [← List.length_pos_iff, List.length_set]
    exact List.length_pos_iff.mpr h.nonempty
  · intro k hk
    rcases List.mem_or_eq_of_mem_set hk with hk | rfl
    · exact h.positive k hk
    · exact hn

end BlockNet
