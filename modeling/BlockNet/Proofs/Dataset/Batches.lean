import BlockNet.Proofs.Dataset.Streams
import BlockNet.Proofs.Decimal.Quotient
import BlockNet.Proofs.Layer.Weights
import BlockNet.Proofs.Value.Integer
import Mathlib.Algebra.BigOperators.Group.Finset.Basic

/-! # The batches of an epoch

The samples of a split are gone through in batches of one size, of which the last may be smaller. The
number of batches is worked out beforehand, by a division, and no batch is empty and no sample is left
out, unless the limit ends the epoch early. -/

namespace BlockNet

/-! ## Samples cut into batches -/

/-- The number of batches that hold all samples, or the limit if that is less. -/
def cutCount (samples size : Nat) (limit : Option Nat) : Nat :=
  limit.elim (samples ⌈/⌉ size) (min (samples ⌈/⌉ size))

/-- Samples cut into batches of a size: each batch takes what the ones before have left, but never
more than the size. -/
structure Cut (samples size : Nat) (limit : Option Nat) (count : Nat) (rows : Nat → Nat) : Prop where
  count_eq : count = cutCount samples size limit
  one_le : 1 ≤ count
  rows_eq : ∀ k, rows k = min size (samples - ∑ i ∈ Finset.range k, rows i)
  full : ∀ k, k + 1 < count → rows k = size
  last : ∀ k, k + 1 = count → 1 ≤ rows k ∧ rows k ≤ size
  sum_eq : ∑ k ∈ Finset.range count, rows k = min samples (count * size)
  exhausted : limit = none → ∑ k ∈ Finset.range count, rows k = samples

/-- The number of samples in the batch at a step. -/
def rowsAt (samples size step : Nat) : Nat := min size (samples - step * size)

theorem sum_rowsAt (samples size count : Nat) :
    ∑ k ∈ Finset.range count, rowsAt samples size k = min samples (count * size) := by
  induction count with
  | zero => simp
  | succ count ih =>
      rw [Finset.sum_range_succ, ih, rowsAt, Nat.succ_mul]
      omega

theorem lt_of_lt_ceilDiv {samples size k : Nat} (hsize : 1 ≤ size) (hk : k < samples ⌈/⌉ size) :
    k * size < samples := by
  rw [Nat.mul_comm]
  exact not_le.mp fun hle => not_le.mpr hk ((ceilDiv_le_iff_le_mul hsize).mpr hle)

theorem cut_rowsAt {samples size : Nat} {limit : Option Nat} (hsamples : 1 ≤ samples)
    (hsize : 1 ≤ size) (hlimit : ∀ n ∈ limit, 1 ≤ n) :
    Cut samples size limit (cutCount samples size limit) (rowsAt samples size) := by
  have hcount : cutCount samples size limit ≤ samples ⌈/⌉ size := by
    cases limit with
    | none => exact le_rfl
    | some limit => exact Nat.min_le_left _ _
  have hall := (ceilDiv_le_iff_le_mul hsize).mp (le_refl (samples ⌈/⌉ size))
  rw [Nat.mul_comm] at hall
  have hone : 1 ≤ samples ⌈/⌉ size := by
    by_contra! hnone
    rw [Nat.lt_one_iff.mp hnone, Nat.zero_mul] at hall
    omega
  refine ⟨rfl, ?_, fun k => ?_, fun k hk => ?_, fun k hk => ?_, sum_rowsAt _ _ _, ?_⟩
  · cases limit with
    | none => exact hone
    | some n => exact Nat.le_min.mpr ⟨hone, hlimit n rfl⟩
  · rw [sum_rowsAt, rowsAt]
    omega
  · have hnext := lt_of_lt_ceilDiv hsize (hk.trans_le hcount)
    rw [Nat.succ_mul] at hnext
    rw [rowsAt]
    omega
  · have hthis := lt_of_lt_ceilDiv hsize ((show k < k + 1 by omega).trans_le (hk.trans_le hcount))
    rw [rowsAt]
    omega
  · rintro rfl
    rw [sum_rowsAt]
    exact Nat.min_eq_left hall

/-- A batch of so many rows: samples of some axes, and one of so many classes for each. An axis that
is left open has size zero. -/
structure Batch.Holds {α : Type} (b : Batch α) (rows : Nat) (axes : List Int) (classes : Nat) :
    Prop where
  inputs : ∃ t, b.inputs = .real t ∧ t.dims = rows :: axes.map Int.toNat
  labels : ∃ t, b.labels = .whole t ∧ t.dims = [rows] ∧
    ∀ label ∈ t.entries, 0 ≤ label ∧ label < classes

/-! ## Plans in whole numbers -/

/-- A description in whole numbers: the samples of each split, the axes of a sample and the classes.
How well the classes stand apart can be written as doubles. -/
structure DatasetSpec.Whole (s : DatasetSpec) (samples : Split → Nat) (axes : List Int)
    (classes : Nat) : Prop where
  train : s.samples.integer? = some (samples .train : Int)
  validation : s.valSamples.integer? = some (samples .validation : Int)
  features : s.features = axes.map .int
  classes : s.classes.integer? = some (classes : Int)
  difficulty : ∃ x, s.difficulty.toFloat = .ok x
  noiseLevel : ∃ x, s.noiseLevel.toFloat = .ok x

namespace Number

theorem whole_smaller (a b : Nat) : (whole a).smaller (whole b) = whole (min a b : Nat) := by
  rw [smaller, lt_of_integer? (a := whole b) (b := whole a) rfl rfl]
  by_cases h : b < a
  · rw [if_pos (by simpa using h), Nat.min_eq_right h.le]
  · rw [if_neg (by simpa using h), Nat.min_eq_left (Nat.not_lt.mp h)]

/-- The quotient of whole numbers rounded up, one at least. -/
theorem ceilDividedBy_whole {a b : Number} {n d : Nat} (ha : a.integer? = some (n : Int))
    (hb : b.integer? = some (d : Int)) (hn : 1 ≤ n) (hd : 1 ≤ d) (hle : n ≤ 2 ^ 53) :
    ∃ up : Nat, a.ceilDividedBy b = .ok up ∧ max 1 up = n ⌈/⌉ d := by
  obtain ⟨up, hup, hmax⟩ := Binary.ceil_ofQuotient hn hd hle
  refine ⟨up, ?_, hmax⟩
  simp only [ceilDividedBy, ha, hb]
  rw [if_neg (by omega), hup]

end Number

namespace BatchPlan

/-- The plan of batches of a size, in whole numbers. -/
def whole (spec : DatasetSpec) (split : Split) (size : Nat) (seed : Int) (limit : Option Nat) :
    BatchPlan :=
  ⟨spec, split, .whole size, .int seed, limit.map fun n => .whole n⟩

variable {spec : DatasetSpec} {samples : Split → Nat} {axes : List Int} {classes : Nat}
  {split : Split} {size : Nat} {seed : Int} {limit : Option Nat}

@[simp]
theorem spec_whole : (whole spec split size seed limit).spec = spec := rfl

@[simp]
theorem batchSize_whole : (whole spec split size seed limit).batchSize = .whole size := rfl

/-- The plan is made if its prototypes can be drawn. -/
theorem ofValues_whole (spec : DatasetSpec) (split : Split) (seed : Int) (hsize : 1 ≤ size)
    (hlimit : ∀ n ∈ limit, 1 ≤ n) {dims : List Nat} (hdims : prototypeSizes spec = .ok dims) :
    ofValues spec (.text split.name) (.int size) (.int seed) (limit.elim .null fun n => .int n) =
      .ok (whole spec split size seed limit) := by
  have hsplit : Split.ofValue (.text split.name) = .ok split := by cases split <;> rfl
  have hdemand : ∀ n : Nat, 1 ≤ n → ∀ rule,
      demand (!(Number.whole n).lt (.whole 1)) rule = .ok () := by
    intro n hn rule
    rw [demand_eq_ok, Number.lt_of_integer? (a := .whole n) (b := .whole 1) rfl rfl,
      Bool.not_eq_true', decide_eq_false_iff_not]
    omega
  rw [ofValues, hsplit, ok_bind]
  cases limit with
  | none => simp [Value.number?, orMishap, hdemand _ hsize, Value.toInt, hdims, ok_bind, whole]
  | some n =>
      simp [Value.number?, orMishap, hdemand _ hsize, hdemand _ (hlimit n rfl), Value.toInt, hdims,
        ok_bind, whole]

theorem sampleCount_whole (hspec : spec.Whole samples axes classes) :
    (whole spec split size seed limit).sampleCount.integer? = some (samples split : Int) := by
  cases split with
  | train => exact hspec.train
  | validation => exact hspec.validation

theorem one_le_samples (hspec : spec.Whole samples axes classes) : 1 ≤ samples split := by
  cases split with
  | train => exact Int.ofNat_le.mp (Number.one_le_of_integer? spec.samples_ge hspec.train)
  | validation =>
      exact Int.ofNat_le.mp (Number.one_le_of_integer? spec.valSamples_ge hspec.validation)

theorem two_le_classes (hspec : spec.Whole samples axes classes) : 2 ≤ classes := by
  have hclasses := spec.classes_ge
  rw [Number.lt_of_integer? (b := .whole 2) hspec.classes rfl, decide_eq_false_iff_not] at hclasses
  omega

/-! ## The batches of an epoch -/

theorem batchesPerEpoch_whole (hspec : spec.Whole samples axes classes) (hsize : 1 ≤ size)
    (hsamples : samples split ≤ 2 ^ 53) :
    (whole spec split size seed limit).batchesPerEpoch =
      .ok (.whole (cutCount (samples split) size limit)) := by
  have hcount : (whole spec split size seed limit).sampleCount.integer? = some (samples split : Int) :=
    sampleCount_whole hspec
  obtain ⟨up, hup, hmax⟩ := Number.ceilDividedBy_whole (b := .whole size) hcount rfl
    (one_le_samples hspec) hsize hsamples
  have hfull : max 1 (up : Int) = (samples split ⌈/⌉ size : Nat) := by omega
  rw [batchesPerEpoch, batchSize_whole, hup, ok_bind, hfull]
  cases limit with
  | none => rfl
  | some limit => exact congrArg Except.ok (Number.whole_smaller _ _)

theorem batchCount_whole (hspec : spec.Whole samples axes classes) (hsize : 1 ≤ size)
    (hsamples : samples split ≤ 2 ^ 53) :
    (whole spec split size seed limit).batchCount = .ok (cutCount (samples split) size limit) := by
  rw [batchCount, batchesPerEpoch_whole hspec hsize hsamples]
  rfl

theorem batchRows_whole (hspec : spec.Whole samples axes classes) (step : Nat) :
    (whole spec split size seed limit).batchRows step =
      .ok (rowsAt (samples split) size step) := by
  have hbatch : (whole spec split size seed limit).batchSize.integer? = some (size : Int) := rfl
  simp only [batchRows, sampleCount_whole hspec, hbatch]
  rw [rowsAt, ← Int.natCast_mul]
  congr 1
  omega

/-- What so many batches leave of the samples. -/
theorem leftAfter_whole (size steps left : Nat) :
    leftAfter (.whole size) steps (.whole left) = .ok (.whole (left - steps * size : Nat)) := by
  induction steps generalizing left with
  | zero => simp [leftAfter]
  | succ steps ih =>
      have hminus : (Number.whole left).minus (.whole (min size left : Nat)) =
          .ok (.whole (left - size : Nat)) := by
        simp only [Number.minus, Number.integer?]
        congr 2
        omega
      rw [leftAfter, Number.whole_smaller, hminus, ok_bind, ih, Nat.sub_sub, Nat.succ_mul,
        Nat.add_comm]

/-- The rows of a batch are those that a running count leaves, but no more than a full batch. -/
theorem batchRows_running (hspec : spec.Whole samples axes classes) (step : Nat) :
    (whole spec split size seed limit).batchRows step = (do
      let left ← leftAfter (.whole size) step (.whole (samples split))
      .ok (← ((Number.whole size).smaller left).toInt).toNat) := by
  rw [batchRows_whole hspec, leftAfter_whole, ok_bind, Number.whole_smaller]
  rfl

theorem batchSeed_whole (spec : DatasetSpec) (split : Split) (size : Nat) (seed : Int)
    (limit : Option Nat) (epoch : Int) (step : Nat) :
    ∃ s, (whole spec split size seed limit).batchSeed (.int epoch) step = .ok s := by
  cases split <;> exact ⟨_, rfl⟩

theorem batchSeed_validation {p : BatchPlan} (hp : p.split = .validation) (epoch epoch' : Value)
    (step : Nat) : p.batchSeed epoch step = p.batchSeed epoch' step := by
  rw [batchSeed, batchSeed, hp]

theorem prototypeSizes_whole (hspec : spec.Whole samples axes classes) {dims : List Nat}
    (hdims : prototypeSizes spec = .ok dims) : dims = classes :: axes.map Int.toNat := by
  have hvalues : (spec.classes.toValue :: spec.features).mapM Value.toInt =
      .ok ((classes : Int) :: axes) := by
    rw [hspec.features, List.mapM_cons, mapM_toInt, ← Number.toInt,
      Number.toInt_of_integer? hspec.classes]
    rfl
  rw [prototypeSizes, hvalues, ok_bind] at hdims
  exact drawnSizes_eq_ok hdims

theorem mem_labelsFrom {p : BatchPlan} (hspec : p.spec.Whole samples axes classes)
    (hclasses : 0 < classes) (g : Generator) (rows : Nat) :
    ∀ label ∈ (p.labelsFrom g rows).entries, 0 ≤ label ∧ label < classes := by
  intro label hlabel
  obtain ⟨i, rfl⟩ := Array.mem_ofFn.mp hlabel
  have hfraction : p.spec.classes.fraction? = some ((classes : Int), 1) := by
    have := hspec.classes
    cases hc : p.spec.classes with
    | real x => simp [hc, Number.integer?] at this
    | _ => simpa [hc, Number.integer?, Number.fraction?] using this
  simp only [classOf, hfraction, Nat.mul_one, Nat.div_one, Int.toNat_natCast]
  have := Nat.mod_lt (g.drawAt i) hclasses
  omega

section Epochs

variable {α : Type} [Scalar α]

theorem prototypes_whole (hspec : spec.Whole samples axes classes) {dims : List Nat}
    (hdims : prototypeSizes spec = .ok dims) :
    ∃ t : Tensor α, (whole spec split size seed limit).prototypes = .ok t ∧
      t.dims = classes :: axes.map Int.toNat := by
  refine ⟨Tensor.ofFn dims (noiseAt (Generator.seeded seed)), ?_, prototypeSizes_whole hspec hdims⟩
  rw [prototypes, spec_whole, hdims]
  rfl

theorem batchAt_whole (hspec : spec.Whole samples axes classes) {prototypes : Tensor α}
    (hprototypes : prototypes.dims = classes :: axes.map Int.toNat) (epoch : Int) (step : Nat) :
    ∃ b, (whole spec split size seed limit).batchAt prototypes (.int epoch) step = .ok b ∧
      b.Holds (rowsAt (samples split) size step) axes classes := by
  obtain ⟨s, hseed⟩ := batchSeed_whole spec split size seed limit epoch step
  obtain ⟨near, hnear⟩ := hspec.difficulty
  obtain ⟨noise, hnoise⟩ := hspec.noiseLevel
  have hmixture : mixture spec = .ok (near, 1.0 - near + noise) := by
    rw [mixture, hnear, ok_bind, hnoise]
    rfl
  have hlabels := mem_labelsFrom (p := whole spec split size seed limit) hspec
    (Nat.lt_of_lt_of_le Nat.two_pos (two_le_classes hspec)) (.seeded s)
    (rowsAt (samples split) size step)
  have hnone : ((whole spec split size seed limit).labelsFrom (.seeded s)
      (rowsAt (samples split) size step)).entries.any
        (fun label => (prototypes.dims.headD 0 : Int) ≤ label) = false := by
    rw [hprototypes, Array.any_eq_false']
    intro label hlabel
    have := (hlabels label hlabel).2
    simpa using this
  rw [batchAt, batchRows_whole hspec, ok_bind, hseed, ok_bind, spec_whole, hmixture, ok_bind]
  dsimp only
  rw [if_neg (by rw [hnone]; decide)]
  refine ⟨_, rfl, ⟨_, rfl, ?_⟩, ⟨_, rfl, rfl, hlabels⟩⟩
  rw [Tensor.dims_ofFn, hprototypes, List.tail_cons]

theorem epoch_whole (hspec : spec.Whole samples axes classes) (hsize : 1 ≤ size)
    (hsamples : samples split ≤ 2 ^ 53) {dims : List Nat} (hdims : prototypeSizes spec = .ok dims)
    (epoch : Int) : ∃ e,
      (Source.planned (whole spec split size seed limit) : Source α).epoch (.int epoch) = .ok e ∧
        e.count = cutCount (samples split) size limit ∧
        ∀ k < cutCount (samples split) size limit,
          ∃ b, e.batchAt k = .ok b ∧ b.Holds (rowsAt (samples split) size k) axes classes := by
  obtain ⟨prototypes, hprototypes, haxes⟩ : ∃ t : Tensor α,
      (whole spec split size seed limit).prototypes = .ok t ∧
        t.dims = classes :: axes.map Int.toNat := prototypes_whole hspec hdims
  refine ⟨⟨cutCount (samples split) size limit,
    (whole spec split size seed limit).batchAt prototypes (.int epoch)⟩, ?_, rfl,
    fun k _ => batchAt_whole hspec haxes epoch k⟩
  rw [Source.epoch, hprototypes, ok_bind, batchCount_whole hspec hsize hsamples, ok_bind]

/-- The validation split has the same batches in every epoch. -/
theorem epoch_validation {p : BatchPlan} (hp : p.split = .validation) (epoch epoch' : Value) :
    (Source.planned p : Source α).epoch epoch = (Source.planned p).epoch epoch' := by
  have hbatch (prototypes : Tensor α) : p.batchAt prototypes epoch = p.batchAt prototypes epoch' := by
    funext step
    rw [batchAt, batchAt, batchSeed_validation hp epoch epoch']
  simp only [Source.epoch, hbatch]

/-- What a plan goes through in an epoch: the samples of the split cut into batches, as many as it
tells of beforehand, each with a label for every sample. The validation does not depend on the epoch.
The number of batches comes from a division of doubles, so the samples must not be too many to count
by those. -/
theorem epoch_cut (split : Split) (hspec : spec.Whole samples axes classes)
    (hsamples : samples split ≤ 2 ^ 53) (hsize : 1 ≤ size) (hlimit : ∀ n ∈ limit, 1 ≤ n)
    (seed : Int) {dims : List Nat} (hdims : prototypeSizes spec = .ok dims) :
    ∃ p count rows,
      ofValues spec (.text split.name) (.int size) (.int seed)
          (limit.elim .null fun n => .int n) = .ok p ∧
        p.sampleCount.integer? = some (samples split : Int) ∧
        p.batchesPerEpoch = .ok (.whole (count : Nat)) ∧
        Cut (samples split) size limit count rows ∧
        (∀ epoch : Int, ∃ e, (Source.planned p : Source α).epoch (.int epoch) = .ok e ∧
          e.count = count ∧ ∀ k < count, ∃ b, e.batchAt k = .ok b ∧ b.Holds (rows k) axes classes) ∧
        (split = .validation → ∀ epoch epoch' : Value,
          (Source.planned p : Source α).epoch epoch = (Source.planned p).epoch epoch') := by
  exact ⟨whole spec split size seed limit, _, rowsAt (samples split) size,
    ofValues_whole spec split seed hsize hlimit hdims, sampleCount_whole hspec,
    batchesPerEpoch_whole hspec hsize hsamples, cut_rowsAt (one_le_samples hspec) hsize hlimit,
    epoch_whole hspec hsize hsamples hdims, fun hsplit => epoch_validation hsplit⟩

end Epochs

/-- Flowers in batches of 32: three full batches and one of the 24 that are left. -/
theorem epoch_cut_iris : ∃ p, ∃ rows : Nat → Nat,
    ofValues .iris (.text "train") (.int 32) (.int 0) .null = .ok p ∧
      p.batchesPerEpoch = .ok (.whole 4) ∧
      (List.range 4).map rows = [32, 32, 32, 24] ∧
      ∃ e, (Source.planned p : Source Float).epoch (.int 1) = .ok e ∧ e.count = 4 ∧
        ∀ k < 4, ∃ b, e.batchAt k = .ok b ∧ b.Holds (rows k) [4] 3 := by
  have hspec : DatasetSpec.iris.Whole (fun split => if split = .train then 120 else 30) [4] 3 :=
    ⟨rfl, rfl, rfl, rfl, ⟨_, rfl⟩, ⟨_, rfl⟩⟩
  have hsize : 1 ≤ 32 := by decide
  have hlimit : ∀ n ∈ (none : Option Nat), 1 ≤ n := by simp
  have hdims : prototypeSizes .iris = .ok [3, 4] := by
    rw [← toOption_eq_some]
    decide +kernel
  obtain ⟨p, count, rows, hp, -, hbatches, hcut, hepoch, -⟩ :=
    epoch_cut (α := Float) .train hspec (by decide) hsize hlimit 0 hdims
  obtain rfl : count = 4 := hcut.count_eq
  have hrows : ∀ k < 3, rows k = 32 := fun k hk => hcut.full k (by omega)
  have hlast : rows 3 = 24 := by
    have hsum := hcut.exhausted rfl
    simp only [Finset.sum_range_succ, Finset.sum_range_zero, hrows 0 (by decide),
      hrows 1 (by decide), hrows 2 (by decide), if_true] at hsum
    omega
  refine ⟨p, rows, hp, hbatches, ?_, hepoch 1⟩
  simp [List.range_succ, hrows, hlast]

end BatchPlan

end BlockNet
