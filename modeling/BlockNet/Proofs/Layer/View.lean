import BlockNet.Layer.Attention
import BlockNet.Layer.Pooling
import BlockNet.Layer.Recurrent
import BlockNet.Proofs.Outcome
import BlockNet.Proofs.Sample.Batch
import BlockNet.Proofs.Shape.Settled
import Mathlib.Data.Nat.Sqrt

/-! # Views of samples

A layer may look at a sample as an image or as a sequence. Either view holds as many entries as the
sample, so a layer that puts the rows of a batch under the axes of a view keeps what is in them. -/

namespace BlockNet

/-! ## Views of shapes -/

namespace TensorShape

variable {s : TensorShape} {kind : String}

theorem sampleSize_of_imageSize {image : ImageSize} (h : s.imageSize kind = .ok image) :
    s.sampleSize? = some (image.height * image.width * image.channels) := by
  obtain ⟨sizes, hsizes, himage⟩ := imageSize_eq_ok.mp h
  rw [sampleSize?, hsizes, Option.map_some, ← ImageSize.size_of_ofSizes? himage, ImageSize.size]

theorem sampleSize_of_sequenceSize {q : SequenceSize} (h : s.sequenceSize kind = .ok q) :
    s.sampleSize? = some (q.steps * q.features) := by
  obtain ⟨sizes, hsizes, hq⟩ := sequenceSize_eq_ok.mp h
  rw [sampleSize?, hsizes, Option.map_some, ← SequenceSize.size_of_ofSizes? hq]

/-- The image view of a flat sample. -/
theorem imageSize_flat {n : Nat} (h : s.sampleDims = [.size n]) (kind : String) :
    s.imageSize kind =
      .ok (if n.sqrt * n.sqrt = n then ⟨n.sqrt, n.sqrt, 1⟩ else ⟨n, 1, 1⟩) :=
  imageSize_eq_ok.mpr ⟨[n], by rw [h]; rfl, rfl⟩

/-- A flat sample is a square image exactly if its size is a square. -/
theorem imageSize_eq_square {n r : Nat} (h : s.sampleDims = [.size n]) (kind : String) :
    s.imageSize kind = .ok ⟨r, r, 1⟩ ↔ n = r * r := by
  rw [imageSize_flat h, Except.ok.injEq]
  constructor
  · intro himage
    split at himage
    · rename_i hsquare
      rw [ImageSize.mk.injEq] at himage
      rw [← himage.1, hsquare]
    · rw [ImageSize.mk.injEq] at himage
      rw [himage.1, ← himage.2.1]
  · rintro rfl
    rw [Nat.sqrt_eq, if_pos rfl]

theorem imageSize_eq_column {n : Nat} (h : s.sampleDims = [.size n]) (hn : ¬∃ r, n = r * r)
    (kind : String) : s.imageSize kind = .ok ⟨n, 1, 1⟩ := by
  rw [imageSize_flat h, if_neg fun hsquare => hn ⟨n.sqrt, hsquare.symm⟩]

end TensorShape

/-! ## Views of rows -/

variable {α : Type} [Scalar α]

/-- The rows of an input under the axes of a view: the same entries in as many rows, each with the
entries of one sample of the shape that was declared. No row of an input that has rows changes its
length. -/
structure Refolded (s : TensorShape) (x : Signal α) (axes : List Nat) (t : Tensor α) : Prop where
  entries : t.entries = x.toReal.entries
  rows : ∃ b row, x.dims = b :: row ∧ t.dims = b :: axes ∧ (0 < b → volume row = volume axes)
  declared : s.sampleSize? = some (volume axes)

variable {s : TensorShape} {x : Signal α} {axes : List Nat} {b : Nat} {t : Tensor α}

omit [Scalar α] in
theorem Signal.exists_dims_of_batch (h : x.batch = .ok b) : ∃ row, x.dims = b :: row := by
  rw [Signal.batch] at h
  split at h
  · rename_i b' row hdims
    exact ⟨row, Except.ok.inj h ▸ hdims⟩
  · cases h

theorem refolded_of_reshape (hs : s.sampleSize? = some (volume axes)) (hb : x.batch = .ok b)
    (h : x.toReal.reshape (b :: axes) = .ok t) : Refolded s x axes t := by
  obtain ⟨row, hrow⟩ := Signal.exists_dims_of_batch hb
  obtain ⟨hdims, hentries, hvolume⟩ := Tensor.entries_of_reshape h
  refine ⟨hentries, ⟨b, row, hrow, hdims, fun hpos => ?_⟩, hs⟩
  rw [Signal.dims_toReal, hrow, volume_cons, volume_cons] at hvolume
  exact (Nat.eq_of_mul_eq_mul_left hpos hvolume).symm

/-- An input that has entries, in rows as they were declared, can be put under the axes of a view. -/
theorem exists_reshape_of_declared {row : List Nat} (hx : x.dims = b :: row)
    (hrow : s.sampleSize? = some (volume row)) (hs : s.sampleSize? = some (volume axes))
    (hpos : 0 < x.size) : ∃ t, x.toReal.reshape (b :: axes) = .ok t := by
  have hsame : volume axes = volume row := Option.some.inj (hs.symm.trans hrow)
  have hsize : x.size = volume (b :: axes) := by
    rw [Signal.size, hx, volume_cons, volume_cons, hsame]
  have hvolume : volume (b :: axes) = volume x.toReal.dims := by
    rw [Signal.dims_toReal, ← hsize, Signal.size]
  obtain ⟨t, ht, -⟩ := Tensor.reshape_eq_ok hvolume (hsize ▸ hpos)
  exact ⟨t, ht⟩

theorem declared_image {kind : String} {i : ImageSize} (h : s.imageSize kind = .ok i) :
    s.sampleSize? = some (volume [i.height, i.width, i.channels]) := by
  rw [TensorShape.sampleSize_of_imageSize h]
  simp [Nat.mul_assoc]

theorem declared_sequence {kind : String} {q : SequenceSize} (h : s.sequenceSize kind = .ok q) :
    s.sampleSize? = some (volume [q.steps, q.features]) := by
  rw [TensorShape.sampleSize_of_sequenceSize h]
  simp

/-- Something is worked out from an input, refolded to the image that its shape is viewed as. -/
def FromImage (s : TensorShape) (x : Signal α) (kind : String)
    (result : ImageSize → Tensor α → Prop) : Prop :=
  ∃ i t, s.imageSize kind = .ok i ∧ Refolded s x [i.height, i.width, i.channels] t ∧ result i t

/-- Something is worked out from an input, refolded to the sequence that its shape is viewed as. -/
def FromSequence (s : TensorShape) (x : Signal α) (kind : String)
    (result : SequenceSize → Tensor α → Prop) : Prop :=
  ∃ q t, s.sequenceSize kind = .ok q ∧ Refolded s x [q.steps, q.features] t ∧ result q t

/-! ## Layers that look at views -/

variable {layer : Layer α} {inputs : List (Signal α)} {y : Tensor α}

theorem Convolution.images_eq_ok_iff {shapes : List TensorShape} {kind : String} {i : ImageSize} :
    Convolution.images shapes kind inputs = .ok (i, b, t) ↔
      ∃ s x, firstOf shapes = .ok s ∧ firstOf inputs = .ok x ∧ s.imageSize kind = .ok i ∧
        x.batch = .ok b ∧ x.toReal.reshape [b, i.height, i.width, i.channels] = .ok t := by
  constructor
  · intro h
    obtain ⟨s, hs, h⟩ := bind_eq_ok.mp h
    obtain ⟨i', himage, h⟩ := bind_eq_ok.mp h
    obtain ⟨x, hx, h⟩ := bind_eq_ok.mp h
    obtain ⟨b', hb, h⟩ := bind_eq_ok.mp h
    obtain ⟨t', ht, h⟩ := bind_eq_ok.mp h
    cases h
    exact ⟨s, x, hs, hx, himage, hb, ht⟩
  · rintro ⟨s, x, hs, hx, himage, hb, ht⟩
    rw [images, hs, ok_bind, himage, ok_bind, hx, ok_bind, hb, ok_bind, ht, ok_bind]

/-- A convolution is worked out from the first input as an image. -/
def Convolution.Refolds (layer : Layer α) (inputs : List (Signal α)) (y : Tensor α) : Prop :=
  ∃ s x, firstOf layer.inputShapes = .ok s ∧ firstOf inputs = .ok x ∧
    FromImage s x kind fun i t => ∃ b k filters kernel,
      Activation.applyNamed layer.params
        (convolve i k filters b t kernel (layer.weight? "bias")) = .ok y

theorem Convolution.forward_refolds (h : Convolution.forward layer inputs = .ok y) :
    Convolution.Refolds layer inputs y := by
  obtain ⟨⟨i, b, t⟩, himages, h⟩ := bind_eq_ok.mp h
  obtain ⟨kernel, -, h⟩ := bind_eq_ok.mp h
  obtain ⟨s, x, hs, hx, himage, hb, ht⟩ := images_eq_ok_iff.mp himages
  refine ⟨s, x, hs, hx, i, t, himage, refolded_of_reshape (declared_image himage) hb ht, ?_⟩
  dsimp only at h
  split at h
  · cases h
  · exact ⟨b, _, _, kernel, h⟩

/-- Pooling is worked out from the first input as an image. -/
def Pooling.Refolds (layer : Layer α) (inputs : List (Signal α)) (y : Tensor α) : Prop :=
  ∃ s x, firstOf layer.inputShapes = .ok s ∧ firstOf inputs = .ok x ∧
    FromImage s x kind fun i t => ∃ b pool, y = largest i pool b t

theorem Pooling.forward_refolds (h : Pooling.forward layer inputs = .ok y) :
    Pooling.Refolds layer inputs y := by
  obtain ⟨s', hs', h⟩ := bind_eq_ok.mp h
  obtain ⟨i', himage', h⟩ := bind_eq_ok.mp h
  obtain ⟨pool, -, h⟩ := bind_eq_ok.mp h
  obtain ⟨⟨i, b, t⟩, himages, h⟩ := bind_eq_ok.mp h
  obtain ⟨s, x, hs, hx, himage, hb, ht⟩ := Convolution.images_eq_ok_iff.mp himages
  -- the shape is viewed twice, both times alike
  obtain rfl : s = s' := Except.ok.inj (hs.symm.trans hs')
  obtain rfl : i = i' := Except.ok.inj (himage.symm.trans himage')
  refine ⟨s, x, hs, hx, i, t, himage, refolded_of_reshape (declared_image himage) hb ht, ?_⟩
  dsimp only at h
  split at h
  · cases h
  · exact ⟨b, _, (Except.ok.inj h).symm⟩

/-- A recurrent layer runs over the first input as a sequence. -/
def Recurrent.Refolds (layer : Layer α) (inputs : List (Signal α)) (y : Tensor α) : Prop :=
  ∃ s x, firstOf layer.inputShapes = .ok s ∧ firstOf inputs = .ok x ∧
    FromSequence s x kind fun q t => ∃ cell b,
      y = run cell b q.steps t (keepsSteps layer.params)

theorem Recurrent.forward_refolds (h : Recurrent.forward layer inputs = .ok y) :
    Recurrent.Refolds layer inputs y := by
  obtain ⟨s, hs, h⟩ := bind_eq_ok.mp h
  obtain ⟨q, hq, h⟩ := bind_eq_ok.mp h
  obtain ⟨units, -, h⟩ := bind_eq_ok.mp h
  obtain ⟨x, hx, h⟩ := bind_eq_ok.mp h
  obtain ⟨b, hb, h⟩ := bind_eq_ok.mp h
  obtain ⟨t, ht, h⟩ := bind_eq_ok.mp h
  refine ⟨s, x, hs, hx, q, t, hq, refolded_of_reshape (declared_sequence hq) hb ht, ?_⟩
  split at h
  · cases h
  · obtain ⟨cell, -, h⟩ := bind_eq_ok.mp h
    dsimp only at h
    split at h
    · cases h
    · exact ⟨cell, b, (Except.ok.inj h).symm⟩

/-- A stream of attention is an affine map of an input as a sequence. -/
theorem Attention.project_refolds {name : String}
    (h : Attention.project layer name x s = .ok y) :
    FromSequence s x Attention.kind fun _ t => ∃ dims w b, y = Attention.affine t dims w b := by
  obtain ⟨t, hsequences, h⟩ := bind_eq_ok.mp h
  obtain ⟨w, -, h⟩ := bind_eq_ok.mp h
  obtain ⟨b, -, h⟩ := bind_eq_ok.mp h
  obtain ⟨q, hq, hsequences⟩ := bind_eq_ok.mp hsequences
  obtain ⟨n, hn, ht⟩ := bind_eq_ok.mp hsequences
  exact ⟨q, t, hq, refolded_of_reshape (declared_sequence hq) hn ht, _, w, b,
    (Except.ok.inj h).symm⟩

/-- The heads share all features out among them. -/
theorem Attention.mul_ediv_of_heads {size wanted count : Int}
    (h : Attention.heads size wanted = .ok count) : count * (size / count) = size := by
  apply Int.mul_ediv_cancel'
  rw [heads] at h
  split at h
  · cases h
  · rw [← Except.ok.inj h]
    split
    · exact Int.dvd_of_emod_eq_zero ‹_›
    · exact Int.gcd_dvd_left ..

/-- The streams of attention are affine maps of the inputs as sequences, and their features are dealt
out to heads of one width with none left over. -/
def Attention.Refolds (layer : Layer α) (inputs : List (Signal α)) : Prop :=
  (∃ shapes signals, streams layer.inputShapes = .ok shapes ∧ streams inputs = .ok signals ∧
    ∀ stream ∈ streamNames.zip (signals.zip shapes),
      FromSequence stream.2.2 stream.2.1 kind fun _ t => ∃ dims w b,
        project layer stream.1 stream.2.1 stream.2.2 = .ok (affine t dims w b)) ∧
  ∃ size wanted count, layer.params.integer "dim" = .ok size ∧
    layer.params.integer "heads" = .ok wanted ∧ heads size wanted = .ok count ∧
    count * (size / count) = size

theorem Attention.forward_refolds {mode : PassMode} {g g' : Generator}
    (h : (Attention.forward layer inputs mode).run g = (.ok y, g')) :
    Attention.Refolds layer inputs := by
  obtain ⟨size, hsize, h⟩ := run_lift_bind_eq_ok.mp h
  obtain ⟨wanted, hwanted, h⟩ := run_lift_bind_eq_ok.mp h
  obtain ⟨count, hcount, h⟩ := run_lift_bind_eq_ok.mp h
  obtain ⟨shapes, hshapes, h⟩ := run_lift_bind_eq_ok.mp h
  obtain ⟨signals, hsignals, h⟩ := run_lift_bind_eq_ok.mp h
  obtain ⟨projected, g₁, hprojected, -⟩ := run_bind_eq_ok.mp h
  refine ⟨⟨shapes, signals, hshapes, hsignals, fun stream hstream => ?_⟩,
    size, wanted, count, hsize, hwanted, hcount, mul_ediv_of_heads hcount⟩
  obtain ⟨z, -, hz⟩ := exists_mem_of_mapM (mapM_eq_ok_of_run hprojected) hstream
  obtain ⟨q, t, hq, hfold, dims, w, b, rfl⟩ := project_refolds hz
  exact ⟨q, t, hq, hfold, dims, w, b, hz⟩

/-- What views owe to a shape: they have as many entries as one of its samples; a flat sample is a
square image exactly if its size is a square, and a column otherwise; and an input with entries, in
rows as the shape declares them, can be put under the axes of either view. -/
structure TensorShape.Viewed (α : Type) [Scalar α] (s : TensorShape) (kind : String) : Prop where
  image : ∀ i, s.imageSize kind = .ok i →
    s.sampleSize? = some (i.height * i.width * i.channels)
  sequence : ∀ q, s.sequenceSize kind = .ok q → s.sampleSize? = some (q.steps * q.features)
  square : ∀ n r, s.sampleDims = [.size n] → (s.imageSize kind = .ok ⟨r, r, 1⟩ ↔ n = r * r)
  column : ∀ n, s.sampleDims = [.size n] → (¬∃ r, n = r * r) → s.imageSize kind = .ok ⟨n, 1, 1⟩
  admitted : ∀ (x : Signal α) b row, x.dims = b :: row → s.sampleSize? = some (volume row) →
    0 < x.size →
      (∀ i, s.imageSize kind = .ok i →
        ∃ t, x.toReal.reshape [b, i.height, i.width, i.channels] = .ok t) ∧
      ∀ q, s.sequenceSize kind = .ok q → ∃ t, x.toReal.reshape [b, q.steps, q.features] = .ok t

/-- What the results of a layer are worked out from, whichever of four kinds it is: its first input,
or for attention each of its streams, refolded to the view of the shape that was declared for it. -/
structure Layer.Refolds (layer : Layer α) (inputs : List (Signal α)) : Prop where
  convolution : ∀ y, Convolution.forward layer inputs = .ok y → Convolution.Refolds layer inputs y
  pooling : ∀ y, Pooling.forward layer inputs = .ok y → Pooling.Refolds layer inputs y
  recurrent : ∀ y, Recurrent.forward layer inputs = .ok y → Recurrent.Refolds layer inputs y
  attention : ∀ mode g g' y, (Attention.forward layer inputs mode).run g = (.ok y, g') →
    Attention.Refolds layer inputs

/-- The views of a shape hold just what its samples hold, so no layer that looks at views changes how
much there is in a row. -/
theorem views_keep_rows (s : TensorShape) (kind : String) (layer : Layer α)
    (inputs : List (Signal α)) : s.Viewed α kind ∧ layer.Refolds inputs := by
  refine ⟨⟨fun _ => TensorShape.sampleSize_of_imageSize,
    fun _ => TensorShape.sampleSize_of_sequenceSize,
    fun _ _ h => TensorShape.imageSize_eq_square h kind,
    fun _ h hn => TensorShape.imageSize_eq_column h hn kind, ?_⟩,
    ⟨fun _ => Convolution.forward_refolds, fun _ => Pooling.forward_refolds,
      fun _ => Recurrent.forward_refolds, fun _ _ _ _ => Attention.forward_refolds⟩⟩
  intro x b row hx hrow hpos
  exact ⟨fun i hi => exists_reshape_of_declared hx hrow (declared_image hi) hpos,
    fun q hq => exists_reshape_of_declared hx hrow (declared_sequence hq) hpos⟩

/-- Pooling looks at flat samples of nine entries as squares. -/
theorem views_keep_rows_pooled :
    let layer : Layer Float := ⟨"pool", .text "", "MaxPooling2D", [(.text "pool_size", .int 2)],
      [.batched [.size 9] .float32], .batched [.size 1, .size 1, .size 1] .float32, [], []⟩
    let x : Signal Float := .real (Tensor.filled [2, 9] 1)
    ∃ y t b pool, Pooling.forward layer [x] = .ok y ∧
      Refolded (.batched [.size 9] .float32) x [3, 3, 1] t ∧ y = Pooling.largest ⟨3, 3, 1⟩ pool b t := by
  intro layer x
  obtain ⟨hview, hlayer⟩ := views_keep_rows (.batched [.size 9] .float32) Pooling.kind layer [x]
  have hsquare := (hview.square 9 3 rfl).mpr rfl
  obtain ⟨t, ht⟩ := (hview.admitted x 2 [9] rfl rfl (by decide)).1 _ hsquare
  have himages : Convolution.images layer.inputShapes Pooling.kind [x] = .ok (⟨3, 3, 1⟩, 2, t) :=
    Convolution.images_eq_ok_iff.mpr ⟨_, x, rfl, rfl, hsquare, rfl, ht⟩
  have hpool : layer.params.integer "pool_size" = .ok 2 := rfl
  have hy : Pooling.forward layer [x] = .ok (Pooling.largest ⟨3, 3, 1⟩ 2 2 t) := by
    have hfirst : firstOf layer.inputShapes = .ok (.batched [.size 9] .float32) := rfl
    simp only [Pooling.forward, hfirst, hsquare, hpool, himages, ok_bind]
    rfl
  obtain ⟨s, x', hs, hx, i, u, himage, hfold, b, pool, hresult⟩ := hlayer.pooling _ hy
  cases hs
  cases hx
  cases himage.symm.trans hsquare
  exact ⟨_, u, b, pool, hy, hfold, hresult⟩

end BlockNet
