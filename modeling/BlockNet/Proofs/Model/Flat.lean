import BlockNet.Proofs.Model.Binding
import BlockNet.Proofs.Sample.Batch

/-! # Flat batches

Samples given in rows, their axes flattened, are brought into the axes that the model expects and
then are what they were. Only a row that itself has the axes of a sample is taken for one, and so
the result loses the axis of the batch. -/

namespace BlockNet

variable {α : Type}

/-! ## Other axes -/

namespace Tensor

theorem reshape_eq_of_entries {t u : Tensor α} (hentries : u.entries = t.entries)
    (hvolume : volume u.dims = volume t.dims) (dims : List Nat) :
    u.reshape dims = t.reshape dims := by
  obtain ⟨udims, us, hus⟩ := u
  obtain ⟨tdims, ts, hts⟩ := t
  obtain rfl : us = ts := hentries
  replace hvolume : volume udims = volume tdims := hvolume
  simp only [reshape, reshape?, hvolume]

/-- What is put under other axes can be put under any axes that it could be put under before. -/
theorem reshape_of_reshape {t u : Tensor α} {dims : List Nat} (h : t.reshape dims = .ok u)
    (dims' : List Nat) : u.reshape dims' = t.reshape dims' := by
  obtain ⟨hdims, hentries, hvolume⟩ := entries_of_reshape h
  exact reshape_eq_of_entries hentries (hdims ▸ hvolume) dims'

theorem reshape_unsqueezed (t : Tensor α) (dims : List Nat) :
    t.unsqueezed.reshape dims = t.reshape dims := by
  apply reshape_eq_of_entries
  · rfl
  · exact Nat.one_mul (volume t.dims)

end Tensor

namespace Signal

theorem reshape_of_reshape {x y : Signal α} {dims : List Nat} (h : x.reshape dims = .ok y)
    (dims' : List Nat) : y.reshape dims' = x.reshape dims' := by
  cases x with
  | real t =>
      obtain ⟨u, hu, rfl⟩ := map_eq_ok.mp h
      rw [reshape, reshape, Tensor.reshape_of_reshape hu]
  | whole t =>
      obtain ⟨u, hu, rfl⟩ := map_eq_ok.mp h
      rw [reshape, reshape, Tensor.reshape_of_reshape hu]
  | truth t =>
      obtain ⟨u, hu, rfl⟩ := map_eq_ok.mp h
      rw [reshape, reshape, Tensor.reshape_of_reshape hu]

theorem reshape_unsqueezed (x : Signal α) (dims : List Nat) :
    x.unsqueezed.reshape dims = x.reshape dims := by
  cases x with
  | real t => rw [unsqueezed, reshape, reshape, t.reshape_unsqueezed]
  | whole t => rw [unsqueezed, reshape, reshape, t.reshape_unsqueezed]
  | truth t => rw [unsqueezed, reshape, reshape, t.reshape_unsqueezed]

theorem dims_unsqueezed (x : Signal α) : x.unsqueezed.dims = 1 :: x.dims := by
  cases x <;> rfl

end Signal

/-! ## What is taken for a sample -/

namespace Pass

variable {m : Model α} {sizes : List Nat}

/-- Of two or more axes, those of a sample are taken for a sample. -/
theorem isUnbatched_eq (hshape : m.inputShape.Settled sizes) {x : Signal α}
    (hrank : x.dims.length ≠ 1) : isUnbatched m x = decide (sizes = x.dims) := by
  have hnonempty : m.inputShape.sampleDims.isEmpty = false := by
    rw [hshape.sampleDims, List.isEmpty_map, List.isEmpty_eq_false_iff]
    exact hshape.nonempty
  have hone : (x.dims.length == 1) = false := beq_eq_false_iff_ne.mpr hrank
  simp only [isUnbatched, hnonempty, hshape.sampleSizes, hone, Bool.not_false, Bool.true_and,
    Bool.false_and, Bool.or_false, Option.some.injEq]

/-- A row has the axes of a sample if there is one row and a sample is one. -/
theorem row_iff (hshape : m.inputShape.Settled sizes) (b : Nat) :
    sizes = [b, volume sizes] ↔ b = 1 ∧ sizes = [1, volume sizes] := by
  constructor
  · intro h
    have hvolume : volume sizes = b * volume sizes := by
      conv_lhs => rw [h]
      simp
    have hb : b = 1 :=
      Nat.eq_of_mul_eq_mul_right (volume_pos hshape.positive) (by omega)
    exact ⟨hb, hb ▸ h⟩
  · rintro ⟨rfl, h⟩
    exact h

/-- The input of the model is fed from its entries, whatever the axes they come under. -/
theorem feed_modelInput (hshape : m.inputShape.Settled sizes) {x y : Signal α} {b : Nat}
    (hx : x.batch = .ok b) (hy : y.batch = .ok b) (h : ∀ dims, y.reshape dims = x.reshape dims) :
    feed m (.single y) modelInput = feed m (.single x) modelInput := by
  simp only [feed, given, expected?, if_true]
  split
  · rfl
  · rw [ok_bind, ok_bind, conform, conform, hshape.sampleSizes]
    simp only [hx, hy, ok_bind, h]

/-- What a caller sees of a batch that was taken for a sample is without the axis of the batch. -/
theorem output_seen {p : Pass α} (hwhole : p.unbatched = false) {y : Signal α}
    (hy : p.output m = .ok y) (taken : Bool) :
    ({ p with unbatched := taken } : Pass α).output m =
      .ok (if taken then y.squeezed else y) := by
  cases hfault : p.fault? with
  | some fault =>
      rw [output, hfault] at hy
      cases hy
  | none =>
      simp only [output, hfault] at hy ⊢
      obtain ⟨last, hlast, hy⟩ := bind_eq_ok.mp hy
      obtain ⟨z, hz, hy⟩ := bind_eq_ok.mp hy
      obtain rfl := Except.ok.inj hy
      simp only [hlast, hz, ok_bind, seen, hwhole, Bool.false_eq_true, if_false]

end Pass

/-! ## Passes -/

/-- Samples in rows go through a model that reads nothing else from outside as they do under their
own axes. One row in the axes of a sample is taken for a sample: then the result is without the axis
of the batch. -/
theorem Model.run_flat [Scalar α] {m : Model α} {sizes : List Nat}
    (hreads : ∀ key, m.Awaits key → key = modelInput) (hshape : m.inputShape.Settled sizes)
    {b : Nat} (hb : 0 < b) {x : Signal α} (hx : x.dims = b :: sizes) (mode : PassMode)
    (g : Generator) :
    ∃ flat, x.reshape [b, volume sizes] = .ok flat ∧
      m.run (.single flat) mode g = { m.run (.single x) mode g with
        unbatched := decide (b = 1 ∧ sizes = [1, volume sizes]) } ∧
      ∀ y, (m.run (.single x) mode g).output m = .ok y →
        (m.run (.single flat) mode g).output m =
          .ok (if b = 1 ∧ sizes = [1, volume sizes] then y.squeezed else y) := by
  have hvolume : volume [b, volume sizes] = volume x.dims := by
    rw [hx]
    simp
  have hpos : 0 < volume [b, volume sizes] := by
    rw [hvolume, hx, volume_cons]
    exact Nat.mul_pos hb (volume_pos hshape.positive)
  obtain ⟨flat, hflat, hdims⟩ := Signal.reshape_eq_ok hvolume hpos
  have hwhole : Pass.isUnbatched m x = false := by
    have hrank : x.dims.length ≠ 1 := by
      rw [hx, List.length_cons]
      exact Nat.succ_ne_succ_iff.mpr (List.length_pos_iff.mpr hshape.nonempty).ne'
    rw [Pass.isUnbatched_eq hshape hrank, hx]
    exact decide_eq_false (List.cons_ne_self b sizes).symm
  have htaken : Pass.isUnbatched m flat = decide (b = 1 ∧ sizes = [1, volume sizes]) := by
    have hrank : flat.dims.length ≠ 1 := by rw [hdims]; simp
    rw [Pass.isUnbatched_eq hshape hrank, hdims]
    exact decide_eq_decide.mpr (Pass.row_iff hshape b)
  -- with the axis of the batch or without it, the entries are those of the batch
  have hfed : ∀ dims, (if Pass.isUnbatched m flat then flat.unsqueezed else flat).reshape dims =
      x.reshape dims := by
    intro dims
    split
    · rw [Signal.reshape_unsqueezed, Signal.reshape_of_reshape hflat]
    · rw [Signal.reshape_of_reshape hflat]
  have hbatch : (if Pass.isUnbatched m flat then flat.unsqueezed else flat).batch = .ok b := by
    split
    · rename_i hrow
      obtain ⟨rfl, -⟩ := of_decide_eq_true (htaken ▸ hrow)
      exact Signal.batch_eq_ok flat.dims_unsqueezed
    · exact Signal.batch_eq_ok hdims
  have hvisits : Pass.visitAll m
      (.single (if Pass.isUnbatched m flat then flat.unsqueezed else flat)) mode m.layers [] g =
        Pass.visitAll m (.single x) mode m.layers [] g := by
    apply Pass.visitAll_congr
    · intro key hkey
      obtain rfl := hreads key hkey
      exact Pass.feed_modelInput hshape (Signal.batch_eq_ok hx) hbatch hfed
    · rfl
  have hrun : m.run (.single flat) mode g = { m.run (.single x) mode g with
      unbatched := decide (b = 1 ∧ sizes = [1, volume sizes]) } := by
    rw [htaken] at hvisits
    simp only [Model.run, hwhole, Bool.false_eq_true, if_false, htaken, hvisits]
  refine ⟨flat, hflat, hrun, ?_⟩
  intro y hy
  rw [hrun, Pass.output_seen hwhole hy]
  simp only [decide_eq_true_eq]

/-- A layer that nothing feeds. -/
def unfed : Graph :=
  { nodes := [⟨"act", "Activation", [], .null, false, .null, []⟩], connections := [] }

/-- A model of the layer for samples of some sizes. -/
def Compilation.compileUnfed (sizes : List Value) : Outcome (Model Float) :=
  (compile Stock.catalog (.int 0) unfed (some (.sizes (.list sizes)))).1

/-- Zeros under some axes. -/
def zeros (dims : List Nat) : Signal Float := .real (Tensor.filled dims 0)

/-- The axes of what a model gives for a tensor outside of training, if it gives anything. -/
def Model.dimsOf (m : Model Float) (x : Signal Float) : Option (List Nat) :=
  ((m.run (.single x) ⟨false, false⟩ (.seeded 0)).output m).toOption.map Signal.dims

theorem Model.reads_unfed {m : Model Float} (h : m.layers.map (·.feeds) = [["__input__"]])
    (key : String) (hkey : m.Awaits key) : key = modelInput := by
  obtain ⟨feeds, hmem, hkey⟩ := hkey.exists_feeds
  rw [h, List.mem_singleton] at hmem
  exact List.mem_singleton.mp (hmem ▸ hkey)

/-- Two samples of two rows of three numbers go through in rows of six numbers as well. -/
theorem run_flat_pairs : ∃ m : Model Float, Compilation.compileUnfed [.int 2, .int 3] = .ok m ∧
    (∀ key, m.Awaits key → key = modelInput) ∧ m.inputShape.Settled [2, 3] ∧ 0 < 2 ∧
      ∀ mode g, ∃ flat, (zeros [2, 2, 3]).reshape [2, 6] = .ok flat ∧
        m.run (.single flat) mode g =
          { m.run (.single (zeros [2, 2, 3])) mode g with unbatched := false } ∧
        ∀ y, (m.run (.single (zeros [2, 2, 3])) mode g).output m = .ok y →
          (m.run (.single flat) mode g).output m = .ok y := by
  have hcompiled : ((Compilation.compileUnfed [.int 2, .int 3]).toOption.map
      fun m => (m.layers.map (·.feeds), m.inputShape)) =
        some ([["__input__"]], .batched [.size 2, .size 3] .float32) := by
    decide +kernel
  obtain ⟨m, hm, hfacts⟩ := Option.map_eq_some_iff.mp hcompiled
  obtain ⟨hfeeds, hinput⟩ := Prod.mk.inj hfacts
  have hreads := m.reads_unfed hfeeds
  have hshape : m.inputShape.Settled [2, 3] := hinput ▸ ⟨rfl, by decide, by decide⟩
  have hx : (zeros [2, 2, 3]).dims = 2 :: [2, 3] := rfl
  refine ⟨m, toOption_eq_some.mp hm, hreads, hshape, by decide, ?_⟩
  intro mode g
  exact Model.run_flat hreads hshape (by decide) hx mode g

/-- A row of four numbers is taken for a sample of one row, not for a batch of one such sample. -/
theorem row_loses_batch : ∃ m : Model Float, Compilation.compileUnfed [.int 1, .int 4] = .ok m ∧
    (∀ key, m.Awaits key → key = modelInput) ∧ m.inputShape.Settled [1, 4] ∧
      (zeros [1, 1, 4]).reshape [1, 4] = .ok (zeros [1, 4]) ∧
      ∃ y z, (m.run (.single (zeros [1, 1, 4])) ⟨false, false⟩ (.seeded 0)).output m = .ok y ∧
        (m.run (.single (zeros [1, 4])) ⟨false, false⟩ (.seeded 0)).output m = .ok z ∧
          y.dims = [1, 1, 4] ∧ z.dims = [1, 4] := by
  have hcompiled : ((Compilation.compileUnfed [.int 1, .int 4]).toOption.map
      fun m => (m.layers.map (·.feeds), m.inputShape, m.dimsOf (zeros [1, 1, 4]),
        m.dimsOf (zeros [1, 4]))) =
        some ([["__input__"]], .batched [.size 1, .size 4] .float32, some [1, 1, 4],
          some [1, 4]) := by
    decide +kernel
  obtain ⟨m, hm, hfacts⟩ := Option.map_eq_some_iff.mp hcompiled
  simp only [Prod.mk.injEq] at hfacts
  obtain ⟨hfeeds, hinput, hbatch, hrow⟩ := hfacts
  have hshape : m.inputShape.Settled [1, 4] := hinput ▸ ⟨rfl, by decide, by decide⟩
  obtain ⟨y, hy, hydims⟩ := Option.map_eq_some_iff.mp hbatch
  obtain ⟨z, hz, hzdims⟩ := Option.map_eq_some_iff.mp hrow
  exact ⟨m, toOption_eq_some.mp hm, m.reads_unfed hfeeds, hshape, rfl, y, z, toOption_eq_some.mp hy,
    toOption_eq_some.mp hz, hydims, hzdims⟩

end BlockNet
