import Mathlib.Analysis.SpecialFunctions.Log.Basic
import Mathlib.Analysis.SpecialFunctions.Sqrt
import Mathlib.Analysis.SpecialFunctions.Trigonometric.DerivHyp
import BlockNet.Objective.Loss
import BlockNet.Proofs.Sample.Batch
import BlockNet.Proofs.Tensor.Axes
import BlockNet.Proofs.Tensor.Exact
import BlockNet.Proofs.Value.Integer

/-! # The sign of the cross-entropy

Cross-entropy of scores is never negative, whatever the scores. Rows that look like distributions
are taken as they are, and since a row looks like one if it sums to one within a tolerance, an entry
may be above one. Then, and only then, the cross-entropy is negative. -/

namespace BlockNet

/-! ## Predictions and labels -/

theorem Tensor.reshape_self {α : Type} {t : Tensor α} (h : 0 < volume t.dims) :
    t.reshape t.dims = .ok t := by
  rw [reshape, if_pos (.inl ⟨rfl, Nat.ne_of_gt h⟩)]
  simp [reshape?, orMishap]

theorem Tensor.width_matrix {α : Type} {t : Tensor α} {n c : Nat} (h : t.dims = [n, c]) :
    t.width = c := by
  simp [width, h]

theorem Signal.reshape_self {α : Type} {s : Signal α} (h : 0 < volume s.dims) :
    s.reshape s.dims = .ok s := by
  cases s <;> exact map_eq_ok.mpr ⟨_, Tensor.reshape_self h, rfl⟩

section Matrix

variable {α : Type} [Scalar α] {predictions labels : Signal α} {classes : List Nat} {n c : Nat}

/-- A matrix with entries is its own rows. -/
theorem scoreRows_matrix (hdims : predictions.dims = [n, c]) (hn : 0 < n) (hc : 0 < c) :
    scoreRows predictions = .ok predictions.toReal := by
  have hwidth : predictions.size / n = c := by
    simp [Signal.size, hdims, hn]
  have hflat : predictions.flattened = .ok predictions := by
    rw [Signal.flattened, Signal.batch_eq_ok hdims, ok_bind, if_neg (Nat.ne_of_gt hn), hwidth,
      ← hdims]
    apply Signal.reshape_self
    simp [hdims, hn, hc]
  rw [scoreRows, hdims]
  exact map_eq_ok.mpr ⟨predictions, hflat, rfl⟩

/-- Labels in range are the classes that they name. -/
theorem classLabels_inRange
    (hlabels : labels.toWhole.entries.toList = classes.map fun k : Nat => (k : Int))
    (hrange : ∀ k ∈ classes, k < c) : classLabels labels (.int c) = .ok classes := by
  have hfound : ∀ label ∈ classes.map fun k : Nat => (k : Int), 0 ≤ label ∧ label < c := by
    simpa using hrange
  have hclasses : (classes.map fun k : Nat => (k : Int)).map Int.toNat = classes := by
    simp [Function.comp_def]
  rw [classLabels, hlabels]
  dsimp only
  split
  · rename_i low high hlow hhigh
    have hlow := (hfound low (List.min?_mem hlow)).1
    have hhigh := (hfound high (List.max?_mem hhigh)).2
    have hbelow : (Number.whole c).le (.whole high) = false := by
      apply (Number.lt_iff.mp _).1
      simpa [Number.lt_of_integer? (a := .whole high) (b := .whole c) rfl rfl] using hhigh
    rw [if_neg (by omega), hclasses]
    simp [Value.number?, orMishap, Except.map, hbelow, ok_bind]
  · rename_i hnone
    cases classes with
    | nil => rfl
    | cons k rest => exact (hnone _ _ rfl rfl).elim

namespace Objective

/-- The cross-entropy of the sample at a place. -/
def sampleLoss (rows : Tensor α) (classes : List Nat) (i : Nat) : α :=
  if looksLikeProbabilities rows sumTolerance then
    -Scalar.log (raised (rows.entry (pickedAt rows classes i)))
  else -logShare rows.width (fun k => rows.entry (i * rows.width + k)) (classes.getD i 0)

/-- A matrix of predictions with a label in range for each row has a cross-entropy for each row. -/
theorem crossEntropy_each (hdims : predictions.dims = [n, c]) (hn : 0 < n)
    (hlabels : labels.toWhole.entries.toList = classes.map fun k : Nat => (k : Int))
    (hlength : classes.length = n) (hrange : ∀ k ∈ classes, k < c) :
    crossEntropy.loss predictions labels (.text "none") =
      .ok (Tensor.ofFn [n] (sampleLoss predictions.toReal classes)) := by
  have hc : 0 < c := by
    obtain ⟨k, hk⟩ := List.exists_mem_of_length_pos (hlength ▸ hn)
    exact Nat.zero_lt_of_lt (hrange k hk)
  have hwidth : predictions.toReal.width = c :=
    Tensor.width_matrix (by rw [Signal.dims_toReal, hdims])
  have hheight : (!classes.isEmpty && decide (predictions.toReal.dims.headD 0 < classes.length)) =
      false := by
    simp [hdims, hlength]
  rw [loss, perSample, scoreRows_matrix hdims hn hc, ok_bind]
  dsimp only
  rw [hwidth, classLabels_inRange hlabels hrange, ok_bind, crossEntropies, hheight, hlength]
  rfl

end Objective

end Matrix

/-! ## In exact arithmetic -/

namespace Objective

/-- No share of scores is above one. -/
theorem logShare_nonpos {n k : Nat} (hk : k < n) (f : Nat → ℝ) : logShare n f k ≤ 0 := by
  generalize htop : Scalar.largest (n - 1) f = top
  have hterm : Real.exp (f k - top) ≤ ∑ j ∈ Finset.range n, Real.exp (f j - top) := by
    apply Finset.single_le_sum (f := fun j => Real.exp (f j - top))
    · exact fun j _ => (Real.exp_pos _).le
    · exact Finset.mem_range.mpr hk
  have hlog : f k - top ≤ Real.log (∑ j ∈ Finset.range n, Real.exp (f j - top)) := by
    rw [← Real.log_exp (f k - top)]
    exact Real.log_le_log (Real.exp_pos _) hterm
  simp only [logShare, htop, Scalar.sum_real, Scalar.exp_real, Scalar.log_real]
  linarith

theorem floor_real : (probabilityFloor : ℝ) = 1 / 10000000 := by simp [probabilityFloor]

theorem raised_real (p : ℝ) : raised p = max p (1 / 10000000) := by
  rw [raised, floor_real]
  by_cases h : p < 1 / 10000000
  · rw [if_pos ((Scalar.less_real _ _).mpr h), max_eq_right h.le]
  · rw [if_neg (mt (Scalar.less_real _ _).mp h), max_eq_left (not_lt.mp h)]

theorem raised_pos (p : ℝ) : 0 < raised p := by
  rw [raised_real]
  exact lt_max_of_lt_right (by norm_num)

/-- The logarithm of a raised probability is no more than zero just when the probability is at most
one. -/
theorem neg_log_raised_nonneg_iff (p : ℝ) : 0 ≤ -Real.log (raised p) ↔ p ≤ 1 := by
  rw [neg_nonneg, Real.log_nonpos_iff (raised_pos p).le, raised_real, max_le_iff]
  exact and_iff_left (by norm_num)

/-- Rows look like distributions if no entry is negative and every row sums to about one. -/
theorem looksLikeProbabilities_iff {rows : Tensor ℝ} {n c : Nat} (hdims : rows.dims = [n, c])
    (hn : 0 < n) (hc : 0 < c) (tolerance : ℝ) : looksLikeProbabilities rows tolerance = true ↔
      (∀ p < n * c, 0 ≤ rows.entry p) ∧ ∀ r < n,
        |∑ k ∈ Finset.range c, rows.entry (r * c + k) - 1| ≤ tolerance + 1 / 100000 := by
  have hsize : rows.size = n * c := by simp [Tensor.size, hdims]
  have hwidth : rows.width = c := Tensor.width_matrix hdims
  have hentries : rows.entries.size = n * c := by simp [rows.size_eq, hdims]
  have hnonneg : (rows.entries.all fun x => !Scalar.less x 0) = true ↔
      ∀ p < n * c, 0 ≤ rows.entry p := by
    have hentry : ∀ p (hp : p < rows.entries.size), rows.entry p = rows.entries[p] := by
      intro p hp
      simp [Tensor.entry, hp]
    rw [Array.all_eq_true, ← hentries]
    refine forall₂_congr fun p hp => ?_
    rw [hentry p hp]
    simp
  have hcells : n * c ≠ 0 := (Nat.mul_pos hn hc).ne'
  simp only [looksLikeProbabilities, hsize, hwidth, Nat.mul_div_cancel _ hc, Bool.and_eq_true,
    hnonneg, List.all_eq_true, List.mem_range, Scalar.isFinite_real, Scalar.atMost_real,
    Scalar.magnitude_real, Scalar.sum_real, Scalar.one_real, bne_iff_ne]
  simp [hcells]

theorem tolerance_real : (sumTolerance : ℝ) = 1 / 1000 := by simp [sumTolerance]

/-- No entry of a row that looks like a distribution is above one by more than the tolerance. -/
theorem entry_le_of_looksLikeProbabilities {rows : Tensor ℝ} {n c r k : Nat}
    (hdims : rows.dims = [n, c]) (hr : r < n) (hk : k < c)
    (h : looksLikeProbabilities rows sumTolerance = true) :
    rows.entry (r * c + k) ≤ 100101 / 100000 := by
  have hn : 0 < n := Nat.zero_lt_of_lt hr
  have hc : 0 < c := Nat.zero_lt_of_lt hk
  obtain ⟨hnonneg, hsums⟩ := (looksLikeProbabilities_iff hdims hn hc _).mp h
  have hsum := (abs_le.mp (hsums r hr)).2
  have hentry : rows.entry (r * c + k) ≤ ∑ j ∈ Finset.range c, rows.entry (r * c + j) := by
    apply Finset.single_le_sum (f := fun j => rows.entry (r * c + j))
    · exact fun j hj => hnonneg _ (Tensor.place_lt hr (Finset.mem_range.mp hj))
    · exact Finset.mem_range.mpr hk
  rw [tolerance_real] at hsum
  linarith

/-- The cross-entropy of a sample is negative just when its batch is taken for distributions and the
labelled entry is above one. It is never below the one of the largest entry that is let through. -/
theorem crossEntropy_nonneg_iff {predictions labels : Signal ℝ} {classes : List Nat} {n c : Nat}
    (hdims : predictions.dims = [n, c]) (hn : 0 < n)
    (hlabels : labels.toWhole.entries.toList = classes.map fun k : Nat => (k : Int))
    (hlength : classes.length = n) (hrange : ∀ k ∈ classes, k < c) :
    ∃ losses, crossEntropy.loss predictions labels (.text "none") = .ok losses ∧
      losses.dims = [n] ∧ ∀ i < n,
        (0 ≤ losses.entry i ↔ looksLikeProbabilities predictions.toReal sumTolerance = true →
          predictions.toReal.entry (pickedAt predictions.toReal classes i) ≤ 1) ∧
        -Real.log (100101 / 100000) ≤ losses.entry i := by
  refine ⟨_, crossEntropy_each hdims hn hlabels hlength hrange, rfl, fun i hi => ?_⟩
  have hrows : predictions.toReal.dims = [n, c] := by rw [Signal.dims_toReal, hdims]
  have hwidth : predictions.toReal.width = c := Tensor.width_matrix hrows
  have hlabel : classes.getD i 0 < c := by
    rw [List.getD_eq_getElem _ _ (hlength ▸ hi)]
    exact hrange _ (List.getElem_mem _)
  have hleast : 0 ≤ Real.log (100101 / 100000) := Real.log_nonneg (by norm_num)
  rw [Tensor.entry_ofFn (by simpa using hi), sampleLoss]
  by_cases hprobable : looksLikeProbabilities predictions.toReal sumTolerance = true
  · have hpicked := entry_le_of_looksLikeProbabilities hrows hi hlabel hprobable
    have hraised : raised (predictions.toReal.entry (pickedAt predictions.toReal classes i)) ≤
        100101 / 100000 := by
      rw [raised_real, pickedAt, hwidth]
      exact max_le hpicked (by norm_num)
    rw [if_pos hprobable, Scalar.log_real, imp_iff_right hprobable]
    exact ⟨neg_log_raised_nonneg_iff _, neg_le_neg (Real.log_le_log (raised_pos _) hraised)⟩
  · have hscores := logShare_nonpos hlabel fun k => predictions.toReal.entry (i * c + k)
    rw [if_neg hprobable, hwidth]
    refine ⟨iff_of_true ?_ fun h => absurd h hprobable, ?_⟩ <;> linarith

/-- Distributions over two classes, the second of them certain. -/
noncomputable def certain : Signal ℝ :=
  .real (Tensor.ofFn [2, 2] fun i => [1 / 4, 3 / 4, 1, 0].getD i 0)

theorem crossEntropy_nonneg_iff_certain :
    let labels : Signal ℝ := .whole (Tensor.ofFn [2] fun i => if i = 0 then 1 else 0)
    certain.dims = [2, 2] ∧ labels.toWhole.entries.toList = [1, 0] ∧
      ∃ losses, crossEntropy.loss certain labels (.text "none") = .ok losses ∧
        losses.dims = [2] ∧ ∀ i < 2,
          (0 ≤ losses.entry i ↔ looksLikeProbabilities certain.toReal sumTolerance = true →
            certain.toReal.entry (pickedAt certain.toReal [1, 0] i) ≤ 1) ∧
          -Real.log (100101 / 100000) ≤ losses.entry i :=
  ⟨rfl, rfl, crossEntropy_nonneg_iff rfl (by decide) rfl rfl (by decide)⟩

/-- A row that sums to a little more than one. -/
noncomputable def overfull : Signal ℝ :=
  .real (Tensor.ofFn [1, 2] fun i => if i = 0 then 10009 / 10000 else 0)

/-- The row is taken for a distribution, and its cross-entropy is below zero. -/
theorem crossEntropy_overfull : ∃ losses,
    crossEntropy.loss overfull (.whole (Tensor.ofFn [1] fun _ => 0)) (.text "none") = .ok losses ∧
      losses.dims = [1] ∧ losses.entry 0 < 0 := by
  have hloss : crossEntropy.loss overfull (.whole (Tensor.ofFn [1] fun _ => 0)) (.text "none") =
      .ok (Tensor.ofFn [1] (sampleLoss overfull.toReal [0])) :=
    crossEntropy_each rfl (by decide) rfl rfl (by decide)
  have hentry : ∀ p < 2, overfull.toReal.entry p = if p = 0 then 10009 / 10000 else 0 := by
    intro p hp
    exact Tensor.entry_ofFn (f := fun i => if i = 0 then 10009 / 10000 else 0) hp
  have hfirst : overfull.toReal.entry 0 = 10009 / 10000 := hentry 0 (by decide)
  have hsecond : overfull.toReal.entry 1 = 0 := hentry 1 (by decide)
  have hprobable : looksLikeProbabilities overfull.toReal sumTolerance = true := by
    rw [looksLikeProbabilities_iff (n := 1) (c := 2) rfl (by decide) (by decide), tolerance_real]
    constructor
    · intro p hp
      interval_cases p
      · rw [hfirst]
        norm_num
      · rw [hsecond]
    · intro r hr
      obtain rfl : r = 0 := by omega
      simp [Finset.sum_range_succ, hfirst, hsecond]
      norm_num [abs_le]
  refine ⟨_, hloss, rfl, ?_⟩
  have hpicked : pickedAt overfull.toReal [0] 0 = 0 := rfl
  rw [Tensor.entry_ofFn (by decide), sampleLoss, if_pos hprobable, hpicked, hfirst,
    Scalar.log_real, ← not_le, neg_log_raised_nonneg_iff]
  norm_num

end Objective

end BlockNet
