import BlockNet.Proofs.Layer.Joined
import BlockNet.Proofs.Tensor.Overlay

/-! # Sums of inputs with different numbers of axes

The shape of a sum comes of laying the axes of single samples over each other, the sum itself of
laying whole batches over each other. The axis of the batch of an input with fewer axes therefore
meets an axis of the samples of the others, and the sum is what its shape says only if these two
agree. -/

namespace BlockNet

open List

/-- A batch axis, followed by axes of fixed sizes, if any. -/
def TensorShape.Led (s : TensorShape) (sizes : List Nat) : Prop :=
  s.dims = Dim.batch :: sizes.map Dim.size

namespace TensorShape.Led

variable {s : TensorShape} {sizes : List Nat}

theorem fixedSizes (h : s.Led sizes) (kind what : String) :
    s.fixedSizes kind s.sampleDims what = .ok sizes := by
  have hsample : s.sampleDims = sizes.map Dim.size := by
    rw [TensorShape.sampleDims, h]
    rfl
  rw [TensorShape.fixedSizes, hsample, sizes?_map]

/-- The last axis has a size only if there is an axis behind the one of the batch. -/
theorem featureSize_eq_ok (h : s.Led sizes) {kind : String} {n : Nat}
    (hn : s.featureSize kind = .ok n) : sizes.getLast? = some n := by
  rw [TensorShape.featureSize, h, List.getLast?_cons, List.getLast?_map] at hn
  cases hlast : sizes.getLast? with
  | none =>
      rw [hlast] at hn
      cases hn
  | some last =>
      rw [hlast] at hn
      exact congrArg some (Except.ok.inj hn)

end TensorShape.Led

namespace Addition

open Tensor

/-! ## What the shapes say -/

theorem joined_eq_ok_iff {first s : TensorShape} {last : Nat} {acc next sizes : List Nat}
    (hs : s.Led sizes) :
    joined first last acc s = .ok next ↔ broadcast? acc (withLast sizes last) = some next := by
  rw [joined, hs.fixedSizes, ok_bind]
  cases broadcast? acc (withLast sizes last) with
  | none => simp
  | some dims => simp

theorem foldlM_joined_iff {first : TensorShape} {last : Nat} {shapes : List TensorShape}
    {sizes : List (List Nat)} (hshapes : Forall₂ TensorShape.Led shapes sizes)
    {acc out : List Nat} :
    shapes.foldlM (joined first last) acc = .ok out ↔
      (sizes.map (withLast · last)).foldlM broadcast? acc = some out := by
  induction hshapes generalizing acc with
  | nil => simp [pure, Except.pure]
  | cons hs hshapes ih =>
      rw [List.foldlM_cons, List.map_cons, List.foldlM_cons, bind_eq_ok]
      simp only [joined_eq_ok_iff hs, ih, Option.bind_eq_bind, Option.bind_eq_some_iff]

theorem withLast_of_getLast? {s : List Nat} {last : Nat} (h : s.getLast? = some last) :
    withLast s last = s := by
  obtain ⟨front, rfl⟩ := List.getLast?_eq_some_iff.mp h
  rw [withLast_eq (by simp), List.dropLast_concat]

/-- A sum that has a shape lays the samples over each other. -/
theorem outputShape_overlay {shape out : TensorShape} {shapes : List TensorShape} {s : List Nat}
    {sizes : List (List Nat)} (hs : shape.Led s) (hshapes : Forall₂ TensorShape.Led shapes sizes)
    (hout : outputShape (shape :: shapes) = .ok out) :
    ∃ last result, s.getLast? = some last ∧ out.Led result ∧
      IsOverlay ((s :: sizes).map (withLast · last)) result := by
  rw [outputShape, firstOf_cons, ok_bind] at hout
  obtain ⟨last, hlast, hout⟩ := bind_eq_ok.mp hout
  rw [hs.fixedSizes, ok_bind, List.tail_cons] at hout
  obtain ⟨result, hresult, hout⟩ := bind_eq_ok.mp hout
  rw [TensorShape.ofSample_map] at hout
  have hlast := hs.featureSize_eq_ok hlast
  refine ⟨last, result, hlast, ?_, ?_⟩
  · rw [← Except.ok.inj hout]
    rfl
  · rw [List.map_cons, withLast_of_getLast? hlast]
    exact foldlM_broadcast?_eq_some_iff.mp ((foldlM_joined_iff hshapes).mp hresult)

/-! ## What the tensors do -/

/-- The axes of an input of a batch once the last of them is cut or padded to a size. -/
def laid (b last : Nat) (s : List Nat) : List Nat := (b :: s).dropLast ++ [last]

theorem laid_eq {s : List Nat} (hs : s ≠ []) (b last : Nat) :
    laid b last s = b :: withLast s last := by
  rw [laid, List.dropLast_cons_of_ne_nil hs, List.cons_append, withLast_eq hs]

theorem length_withLast (s : List Nat) (last : Nat) : (withLast s last).length = s.length := by
  cases s with
  | nil => rfl
  | cons n s =>
      rw [withLast_eq (List.cons_ne_nil n s)]
      simp

/-- An input fits some axes if its samples fit them and the axis of the batch meets an axis. Of an
input without further axes the axis of the batch itself is cut or padded. -/
theorem laid_fits_iff {b last : Nat} {s ws : List Nat} (hs : s ≠ []) :
    Fits (laid b last s).reverse ws ↔
      Fits (withLast s last).reverse ws ∧ ∃ w, ws[s.length]? = some w ∧ (b = w ∨ b = 1) := by
  rw [laid_eq hs, List.reverse_cons, Fits.concat_iff, List.length_reverse, length_withLast]

/-- An input without further axes fits whatever another input fits. -/
theorem laid_nil_fits {b last : Nat} {s ws : List Nat} (hs : s ≠ [])
    (h : Fits (withLast s last).reverse ws) : Fits (laid b last []).reverse ws := by
  rw [withLast_eq hs, List.reverse_append] at h
  cases h with
  | cons hn h => exact .cons hn (.nil _)

variable {α : Type} [Scalar α]

theorem dims_aligned_eq {t : Tensor α} {b : Nat} {s : List Nat} (ht : t.dims = b :: s)
    (last : Nat) : (aligned t last).dims = laid b last s := by
  rw [aligned]
  split
  · rename_i hwidth
    have hsplit : t.dims = (b :: s).dropLast ++ [(b :: s).getLast (List.cons_ne_nil b s)] := by
      rw [List.dropLast_append_getLast, ht]
    rw [Tensor.width_eq hsplit] at hwidth
    rw [hsplit, hwidth, laid]
  · rw [Tensor.dims_ofFn, ht, laid]

theorem plus_dims_iff {last b : Nat} {total : Tensor α} {x : Signal α} {s : List Nat}
    (hx : x.dims = b :: s) (dims : List Nat) :
    (∃ y, plus last total x = .ok y ∧ y.dims = dims) ↔
      broadcast? total.dims (laid b last s) = some dims := by
  have hempty : x.dims.isEmpty = false := by rw [hx]; rfl
  have haligned : (aligned x.toReal last).dims = laid b last s :=
    dims_aligned_eq (by rw [Signal.dims_toReal, hx]) last
  rw [plus, hempty, if_neg Bool.false_ne_true, Tensor.zipWith, overlaid, haligned]
  cases broadcast? total.dims (laid b last s) with
  | none => simp
  | some found => simp

theorem foldlM_plus_iff {b : Nat} {signals : List (Signal α)} {sizes : List (List Nat)}
    (hsignals : Batches b signals sizes) (last : Nat) (total : Tensor α) (dims : List Nat) :
    (∃ y, signals.foldlM (plus last) total = .ok y ∧ y.dims = dims) ↔
      (sizes.map (laid b last)).foldlM broadcast? total.dims = some dims := by
  induction hsignals generalizing total with
  | nil => simp [pure, Except.pure]
  | @cons x s signals sizes hx hsignals ih =>
      simp only [List.foldlM_cons, List.map_cons, bind_eq_ok, Option.bind_eq_bind,
        Option.bind_eq_some_iff]
      constructor
      · intro ⟨y, ⟨next, hnext, hy⟩, hdims⟩
        refine ⟨next.dims, (plus_dims_iff hx _).mp ⟨next, hnext, rfl⟩, ?_⟩
        exact (ih next).mp ⟨y, hy, hdims⟩
      · intro ⟨next, hnext, hrest⟩
        obtain ⟨t, ht, rfl⟩ := (plus_dims_iff hx _).mpr hnext
        obtain ⟨y, hy, hdims⟩ := (ih t).mpr hrest
        exact ⟨y, ⟨t, ht, hy⟩, hdims⟩

/-- A sum lays its inputs over each other. -/
theorem forward_dims_iff {b last : Nat} {s : List Nat} {sizes : List (List Nat)} {x : Signal α}
    {signals : List (Signal α)} (hx : x.dims = b :: s) (hlast : s.getLast? = some last)
    (hsignals : Batches b signals sizes) (dims : List Nat) :
    (∃ y, forward (x :: signals) = .ok y ∧ y.dims = dims) ↔
      IsOverlay ((s :: sizes).map (laid b last)) dims := by
  have hempty : x.toReal.dims.isEmpty = false := by rw [Signal.dims_toReal, hx]; rfl
  have hwidth : x.toReal.width = last := by
    rw [Tensor.width, Signal.dims_toReal, hx, List.getLast?_cons, hlast]
    rfl
  have hne : s ≠ [] := by
    rintro rfl
    cases hlast
  have hplus := foldlM_plus_iff hsignals last x.toReal dims
  rw [Signal.dims_toReal, hx, foldlM_broadcast?_eq_some_iff] at hplus
  rw [List.map_cons, laid_eq hne, withLast_of_getLast? hlast, ← hplus]
  simp only [forward, firstOf_cons, ok_bind, hempty, Bool.false_eq_true, if_false, hwidth,
    List.tail_cons]

/-! ## Where they agree -/

/-- The axis of the batch of an input finds its like in a sum: it is the only axis, or stands where
the batch of the sum stands, or meets an axis of its own size. -/
def Meets (b : Nat) (result s : List Nat) : Prop :=
  s = [] ∨ s.length = result.length ∨ result.reverse[s.length]? = some b

section Overlay

variable {b last : Nat} {sizes : List (List Nat)} {result : List Nat}
  (h : IsOverlay (sizes.map (withLast · last)) result)

include h

theorem fits_result_iff (ws : List Nat) :
    Fits result.reverse ws ↔ ∀ s ∈ sizes, Fits (withLast s last).reverse ws := by
  rw [h ws, List.forall_mem_map]

theorem length_le_result {s : List Nat} (hs : s ∈ sizes) : s.length ≤ result.length := by
  simpa [length_withLast] using ((fits_result_iff h _).mp (.refl _) s hs).length_le

/-- One of the samples has as many axes as all of them laid over each other. -/
theorem exists_tallest (hsome : ∃ s ∈ sizes, s ≠ []) :
    ∃ s ∈ sizes, s.length = result.length ∧ s ≠ [] := by
  obtain ⟨some, hsome, hne⟩ := hsome
  have hparts := List.ne_nil_of_mem (List.mem_map_of_mem (f := (withLast · last)) hsome)
  obtain ⟨part, hpart, hlength⟩ := h.exists_length hparts
  obtain ⟨s, hs, rfl⟩ := List.mem_map.mp hpart
  rw [length_withLast] at hlength
  refine ⟨s, hs, hlength, ?_⟩
  have hpos := List.length_pos_iff.mpr hne
  have hle := length_le_result h hsome
  apply List.length_pos_iff.mp
  omega

/-- In batches that can be laid over each other each axis of a batch finds its like. -/
theorem meets_of_laid (hall : IsOverlay (sizes.map (laid b last)) (b :: result)) (hb : b ≠ 1)
    {s : List Nat} (hs : s ∈ sizes) : Meets b result s := by
  by_cases hempty : s = []
  · exact .inl hempty
  have hfit := hall.fits (List.mem_map_of_mem hs)
  rw [List.reverse_cons] at hfit
  obtain ⟨-, w, hw, hbw⟩ := (laid_fits_iff hempty).mp hfit
  obtain rfl : b = w := hbw.resolve_right hb
  rcases Nat.lt_or_eq_of_le (length_le_result h hs) with hlt | heq
  · rw [List.getElem?_append_left (by simpa using hlt)] at hw
    exact .inr (.inr hw)
  · exact .inr (.inl heq)

/-- Where samples fit, and the axis of the batch fits in front of all of them, a batch of samples
fits. -/
theorem laid_fits_of_meets {s ws : List Nat} (hs : s ∈ sizes) (hempty : s ≠ [])
    (hmeets : b = 1 ∨ Meets b result s)
    (hsamples : ∀ s ∈ sizes, Fits (withLast s last).reverse ws) {w : Nat}
    (hw : ws[result.length]? = some w) (hbw : b = w ∨ b = 1) :
    Fits (laid b last s).reverse ws := by
  refine (laid_fits_iff hempty).mpr ⟨hsamples s hs, ?_⟩
  rcases hmeets with hb | hnil | heq | hmeet
  · have hlt : s.length < ws.length :=
      Nat.lt_of_le_of_lt (length_le_result h hs) (List.getElem?_eq_some_iff.mp hw).1
    exact ⟨ws[s.length], List.getElem?_eq_getElem hlt, .inr hb⟩
  · exact absurd hnil hempty
  · exact ⟨w, by rw [heq, hw], hbw⟩
  · exact ((fits_result_iff h ws).mpr hsamples).exists_getElem? hmeet

/-- Whole batches laid over each other give a batch of what samples laid over each other give, if
the axes of the batches find their like. -/
theorem isOverlay_laid_iff (hsome : ∃ s ∈ sizes, s ≠ []) :
    IsOverlay (sizes.map (laid b last)) (b :: result) ↔
      b = 1 ∨ ∀ s ∈ sizes, Meets b result s := by
  obtain ⟨tall, htall, hlength, hne⟩ := exists_tallest h hsome
  constructor
  · intro hall
    by_cases hb : b = 1
    · exact .inl hb
    · exact .inr fun s hs => meets_of_laid h hall hb hs
  · intro hmeets ws
    rw [List.forall_mem_map, List.reverse_cons, Fits.concat_iff, List.length_reverse,
      fits_result_iff h]
    constructor
    · intro ⟨hsamples, w, hw, hbw⟩ s hs
      by_cases hempty : s = []
      · rw [hempty]
        exact laid_nil_fits hne (hsamples tall htall)
      · exact laid_fits_of_meets h hs hempty (hmeets.imp_right fun h => h s hs) hsamples hw hbw
    · intro hlaid
      have hsamples : ∀ s ∈ sizes, Fits (withLast s last).reverse ws := by
        intro s hs
        by_cases hempty : s = []
        · rw [hempty]
          exact .nil ws
        · exact ((laid_fits_iff hempty).mp (hlaid s hs)).1
      refine ⟨hsamples, ?_⟩
      rw [← hlength]
      exact ((laid_fits_iff hne).mp (hlaid tall htall)).2

end Overlay

variable (α) in
/-- There are batches of samples of any sizes. -/
theorem exists_batches (b : Nat) (sizes : List (List Nat)) :
    ∃ signals : List (Signal α), Batches b signals sizes := by
  induction sizes with
  | nil => exact ⟨[], .nil⟩
  | cons s sizes ih =>
      obtain ⟨signals, hsignals⟩ := ih
      exact ⟨.real (Tensor.filled (b :: s) 0) :: signals, .cons rfl hsignals⟩

variable (α) in
/-- A sum of batches is a batch of what the shape of the sum says if and only if the axes of the
batches find their like. They do so in batches of every size if and only if all inputs with further
axes have equally many. -/
theorem forward_declared_iff {shapes : List TensorShape} {out : TensorShape}
    {sizes : List (List Nat)} (hshapes : Forall₂ TensorShape.Led shapes sizes)
    (hout : outputShape shapes = .ok out) :
    ∃ result, out.Led result ∧
      (∀ (b : Nat) (signals : List (Signal α)), Batches b signals sizes →
        ((∃ y, forward signals = .ok y ∧ y.dims = b :: result) ↔
          b = 1 ∨ ∀ s ∈ sizes, Meets b result s)) ∧
      ((∀ (b : Nat) (signals : List (Signal α)), 0 < b → Batches b signals sizes →
        ∃ y, forward signals = .ok y ∧ y.dims = b :: result) ↔
          ∀ s ∈ sizes, s = [] ∨ s.length = result.length) := by
  cases hshapes with
  | nil => cases hout
  | @cons shape s shapes sizes hs hshapes =>
      obtain ⟨last, result, hlast, hled, hoverlay⟩ := outputShape_overlay hs hshapes hout
      have hne : s ≠ [] := by
        rintro rfl
        cases hlast
      have hbatch : ∀ (b : Nat) (signals : List (Signal α)), Batches b signals (s :: sizes) →
          ((∃ y, forward signals = .ok y ∧ y.dims = b :: result) ↔
            b = 1 ∨ ∀ r ∈ s :: sizes, Meets b result r) := by
        intro b signals hsignals
        cases hsignals with
        | cons hx hsignals =>
            rw [forward_dims_iff hx hlast hsignals]
            exact isOverlay_laid_iff hoverlay ⟨s, List.mem_cons_self, hne⟩
      refine ⟨result, hled, hbatch, ?_⟩
      constructor
      · intro hall r hr
        -- a batch larger than the axis that its own axis would meet
        let b := (result.reverse[r.length]?).getD 0 + 2
        obtain ⟨signals, hsignals⟩ := exists_batches α b (s :: sizes)
        have hmeets := (hbatch b signals hsignals).mp (hall b signals (by omega) hsignals)
        rcases (hmeets.resolve_left (by omega)) r hr with hnil | heq | hmeet
        · exact .inl hnil
        · exact .inr heq
        · have hb : b = (result.reverse[r.length]?).getD 0 := by rw [hmeet, Option.getD_some]
          omega
      · intro hlength b signals hb hsignals
        refine (hbatch b signals hsignals).mpr (.inr ?_)
        intro r hr
        rcases hlength r hr with hnil | heq
        · exact .inl hnil
        · exact .inr (.inl heq)

/-- Rows of four by three numbers, and rows of three. -/
def unevenShapes : List TensorShape :=
  [.batched [.size 4, .size 3] .float32, .batched [.size 3] .float32]

theorem unevenShapes_led : Forall₂ TensorShape.Led unevenShapes [[4, 3], [3]] :=
  .cons rfl (.cons rfl .nil)

theorem forward_declared_iff_uneven :
    outputShape unevenShapes = .ok (.batched [.size 4, .size 3] .float32) ∧
      ∃ result, (TensorShape.batched [.size 4, .size 3] .float32).Led result ∧
        (∀ (b : Nat) (signals : List (Signal Float)), Batches b signals [[4, 3], [3]] →
          ((∃ y, forward signals = .ok y ∧ y.dims = b :: result) ↔
            b = 1 ∨ ∀ s ∈ [[4, 3], [3]], Meets b result s)) ∧
        ((∀ (b : Nat) (signals : List (Signal Float)), 0 < b → Batches b signals [[4, 3], [3]] →
          ∃ y, forward signals = .ok y ∧ y.dims = b :: result) ↔
            ∀ s ∈ [[4, 3], [3]], s = [] ∨ s.length = result.length) :=
  ⟨rfl, forward_declared_iff Float unevenShapes_led rfl⟩

/-- Two samples of each have no sum: two rows do not fit four. -/
theorem uneven_batches_no_sum :
    Forall₂ TensorShape.Led unevenShapes [[4, 3], [3]] ∧
      outputShape unevenShapes = .ok (.batched [.size 4, .size 3] .float32) ∧
      ∃ signals : List (Signal Float), Batches 2 signals [[4, 3], [3]] ∧
        forward signals = .error (.mishap .badTensor) := by
  refine ⟨unevenShapes_led, rfl, ?_⟩
  exact ⟨[.real (Tensor.filled [2, 4, 3] 0), .real (Tensor.filled [2, 3] 0)],
    .cons rfl (.cons rfl .nil), rfl⟩

end Addition

end BlockNet
