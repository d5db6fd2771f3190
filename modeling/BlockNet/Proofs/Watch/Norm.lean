import Mathlib.Analysis.SpecialFunctions.Log.Basic
import Mathlib.Analysis.SpecialFunctions.Sqrt
import Mathlib.Analysis.SpecialFunctions.Trigonometric.DerivHyp
import BlockNet.Proofs.Tensor.Exact
import BlockNet.Proofs.Watch.Account

/-! # The norm in a summary

In exact arithmetic the norm that a summary gives of a layer is the quadratic mean of the norms that
its gradient had in the passes since the last summary. That is never below their mean, and it is
their mean just when the norm was the same in all passes. -/

namespace BlockNet

/-! ## Means -/

/-- The mean of numbers. -/
noncomputable def mean (xs : List ℝ) : ℝ := xs.sum / xs.length

/-- The square root of the mean of the squares. -/
noncomputable def quadraticMean (xs : List ℝ) : ℝ := Real.sqrt (mean (xs.map (· ^ 2)))

/-- The mean squared distance from the mean. -/
noncomputable def spread (xs : List ℝ) : ℝ := mean (xs.map fun x => (x - mean xs) ^ 2)

variable {xs : List ℝ}

theorem mean_nonneg (h : ∀ x ∈ xs, 0 ≤ x) : 0 ≤ mean xs :=
  div_nonneg (List.sum_nonneg h) (Nat.cast_nonneg _)

theorem mean_sq_nonneg (f : ℝ → ℝ) : 0 ≤ mean (xs.map fun x => f x ^ 2) := by
  apply mean_nonneg
  simp [sq_nonneg]

theorem mean_map_mul_length (hne : xs ≠ []) (f : ℝ → ℝ) :
    mean (xs.map f) * xs.length = (xs.map f).sum := by
  rw [mean, List.length_map, div_mul_cancel₀]
  simpa using hne

theorem sum_sq_sub (xs : List ℝ) (c : ℝ) : (xs.map fun x => (x - c) ^ 2).sum =
    (xs.map (· ^ 2)).sum - 2 * c * xs.sum + xs.length * c ^ 2 := by
  induction xs with
  | nil => simp
  | cons x xs ih =>
      rw [List.map_cons, List.sum_cons, ih, List.map_cons, List.sum_cons, List.sum_cons,
        List.length_cons, Nat.cast_succ]
      ring

/-- The mean of the squares is above the square of the mean by the spread. -/
theorem mean_sq (hne : xs ≠ []) : mean (xs.map (· ^ 2)) = mean xs ^ 2 + spread xs := by
  have hlength : (xs.length : ℝ) ≠ 0 := by simpa using hne
  have hsum : mean xs * xs.length = xs.sum := by simpa using mean_map_mul_length hne id
  apply mul_right_cancel₀ hlength
  rw [spread, add_mul, mean_map_mul_length hne, mean_map_mul_length hne, sum_sq_sub, ← hsum]
  ring

/-- Numbers are not spread just when all of them are their mean. -/
theorem spread_eq_zero_iff (hne : xs ≠ []) : spread xs = 0 ↔ ∀ x ∈ xs, x = mean xs := by
  have hlength : (xs.length : ℝ) ≠ 0 := by simpa using hne
  rw [← mul_eq_zero_iff_right hlength, spread, mean_map_mul_length hne]
  constructor
  · intro h x hx
    have hle := List.single_le_sum (l := xs.map fun x => (x - mean xs) ^ 2)
      (by simp [sq_nonneg]) _ (List.mem_map_of_mem hx)
    rw [h] at hle
    exact sub_eq_zero.mp (pow_eq_zero_iff two_ne_zero |>.mp (le_antisymm hle (sq_nonneg _)))
  · intro h
    apply List.sum_eq_zero
    simpa [sub_eq_zero] using h

/-- The quadratic mean is no less than the mean. -/
theorem mean_le_quadraticMean (hne : xs ≠ []) : mean xs ≤ quadraticMean xs := by
  apply Real.le_sqrt_of_sq_le
  rw [mean_sq hne]
  exact le_add_of_nonneg_right (mean_sq_nonneg _)

/-- Both means are the same just when all numbers are. -/
theorem quadraticMean_eq_mean_iff (hne : xs ≠ []) (hnonneg : ∀ x ∈ xs, 0 ≤ x) :
    quadraticMean xs = mean xs ↔ ∀ x ∈ xs, ∀ y ∈ xs, x = y := by
  have hlength : (xs.length : ℝ) ≠ 0 := by simpa using hne
  rw [quadraticMean, Real.sqrt_eq_iff_eq_sq (mean_sq_nonneg _) (mean_nonneg hnonneg), mean_sq hne,
    add_eq_left, spread_eq_zero_iff hne]
  constructor
  · intro h x hx y hy
    rw [h x hx, h y hy]
  · intro h x hx
    have hsum : xs.sum = xs.length * x := by
      rw [List.sum_eq_card_nsmul xs x fun y hy => h y hy x hx, nsmul_eq_mul]
    rw [mean, hsum, mul_div_cancel_left₀ _ hlength]

/-! ## Norms of gradients -/

/-- The sum of the squares of the entries. -/
noncomputable def Tensor.squareSum (t : Tensor ℝ) : ℝ := ∑ i ∈ Finset.range t.size, t.entry i ^ 2

theorem Tensor.squareSum_nonneg (t : Tensor ℝ) : 0 ≤ t.squareSum :=
  Finset.sum_nonneg fun _ _ => sq_nonneg _

theorem Tensor.squareSum_filled (dims : List Nat) (x : ℝ) :
    (Tensor.filled dims x).squareSum = volume dims * x ^ 2 := by
  have hentry : ∀ i ∈ Finset.range (volume dims), (Tensor.filled dims x).entry i ^ 2 = x ^ 2 :=
    fun i hi => by rw [filled, entry_ofFn (Finset.mem_range.mp hi)]
  exact (Finset.sum_congr rfl hentry).trans (by simp)

theorem Gradient.squareSum_real (g : Gradient ℝ) :
    g.squareSum = (g.map (·.2.squareSum)).sum := by
  rw [squareSum, Scalar.sum_real]
  induction g with
  | nil => rfl
  | cons e g ih =>
      rw [List.length_cons, Finset.sum_range_succ', List.map_cons, List.sum_cons, ← ih, add_comm]
      simp [Scalar.sum_real, Tensor.squareSum]

theorem Gradient.sq_norm (g : Gradient ℝ) : g.norm ^ 2 = (g.map (·.2.squareSum)).sum := by
  have hnonneg : 0 ≤ (g.map (·.2.squareSum)).sum := by
    refine List.sum_nonneg fun x hx => ?_
    obtain ⟨e, -, rfl⟩ := List.mem_map.mp hx
    exact e.2.squareSum_nonneg
  rw [norm, squareSum_real, Scalar.sqrt_real, Real.sq_sqrt hnonneg]

/-- The squares of a tally are those of all reports. -/
theorem Watched.squares_heard (v : Watched ℝ) (g : Gradient ℝ) :
    (v.heard g).tally.squares = v.tally.squares +
      ((g.filter fun e => v.weights.contains e.1).map (·.2.squareSum)).sum := by
  have hadd : ∀ (t : Tally ℝ) (s : Tensor ℝ), (t.add s).squares = t.squares + s.squareSum := by
    intro t s
    by_cases hsize : s.size = 0
    · simp [Tally.add, hsize, Tensor.squareSum]
    · simp [Tally.add, hsize, Tensor.squareSum, Scalar.sum_real]
  induction g using List.reverseRecOn with
  | nil => simp [heard]
  | append_singleton g e ih =>
      by_cases hkey : e.1 ∈ v.weights
      · have hreport : ((v.heard g).report e.1 e.2).tally.squares =
            (v.heard g).tally.squares + e.2.squareSum := by
          grind [report, heard_weights]
        simp [hreport, ih, hkey, add_assoc]
      · simp [report, ih, hkey]

/-! ## The norm of a layer -/

/-- The norm of all gradients of the weights of a layer together. -/
noncomputable def Layer.normIn (l : Layer ℝ) (g : Gradient ℝ) : ℝ := Gradient.norm (l.reportsIn g)

theorem Layer.normIn_nonneg (l : Layer ℝ) (g : Gradient ℝ) : 0 ≤ l.normIn g := Real.sqrt_nonneg _

/-- After complete passes the norm on record of a layer is the quadratic mean of its norms. -/
theorem Layer.norm_record {l : Layer ℝ} (hl : Watcher.trainableKeys l ≠ [])
    {passes : List (Gradient ℝ)} (hne : passes ≠ []) (hcomplete : ∀ p ∈ passes, l.Complete p)
    (now : Model ℝ) :
    ((l.watched.heard passes.flatten).record now).norm = quadraticMean (passes.map l.normIn) := by
  have hsteps := ((accountedBy_heard hl _).passes passes rfl hcomplete).1
  have hsquares : (l.watched.heard passes.flatten).tally.squares =
      ((passes.map l.normIn).map (· ^ 2)).sum := by
    rw [Watched.squares_heard, List.map_map]
    change 0 + ((l.reportsIn passes.flatten).map _).sum = _
    rw [zero_add, sum_reportsIn_flatten]
    simp [normIn, Gradient.sq_norm, Function.comp_def]
  have hlength : max (passes.length : Int) 1 = passes.length := by
    have hpos := List.length_pos_iff.mpr hne
    omega
  rw [Watched.record, quadraticMean, mean, hsquares, hsteps, hlength]
  simp

namespace Watcher

/-- Of each layer whose weights have entries, a summary after complete passes gives the quadratic
mean of the norms of its gradient in these passes. This is no less than their mean, and it is their
mean just when they are all the same. -/
theorem popSummary_norm {m : Model ℝ} {moves : List (Move ℝ)} {passes : List (Gradient ℝ)}
    (hne : passes ≠ []) (hseen : sinceReset moves = passes.flatten)
    (hcomplete : ∀ l ∈ m.watchedLayers, ∀ p ∈ passes, l.Complete p) (tracks : Bool)
    (now : Model ℝ) :
    let w := (ofModel m tracks).after moves
    (∀ l ∈ m.watchedLayers, (l.reporters.map (·.2.size)).sum ≠ 0 →
      ∃ s, (w.popSummary now none).1 = some s ∧ ∃ r ∈ s.layers, r.name = .text l.id) ∧
    ∀ count s, (w.popSummary now count).1 = some s → ∀ r ∈ s.layers, ∃ l ∈ m.watchedLayers,
      let norms := passes.map l.normIn
      r.name = .text l.id ∧ r.norm = quadraticMean norms ∧ mean norms ≤ r.norm ∧
        (r.norm = mean norms ↔ ∀ x ∈ norms, ∀ y ∈ norms, x = y) := by
  have hweights : ∀ l ∈ m.watchedLayers, trainableKeys l ≠ [] :=
    fun l hl => by simpa using (List.mem_filter.mp hl).2
  have hlayers := after_layers m tracks moves
  rw [hseen] at hlayers
  refine ⟨fun l hl hsize => ?_, fun count s hs r hr => ?_⟩
  · have hpasses := (Layer.accountedBy_heard (hweights l hl) _).passes passes rfl (hcomplete l hl)
    have hentries : (l.watched.heard passes.flatten).tally.entries ≠ 0 := by
      rw [hpasses.2.2]
      exact Nat.mul_ne_zero (by simpa using hne) hsize
    obtain ⟨s, hs, hr⟩ := exists_popSummary (hlayers ▸ List.mem_map_of_mem hl) hentries now
    exact ⟨s, hs, _, hr, congrArg Value.text (Watched.heard_name _ _)⟩
  · obtain ⟨v, hv, -, rfl⟩ := exists_of_popSummary hs hr
    rw [hlayers] at hv
    obtain ⟨l, hl, rfl⟩ := List.mem_map.mp hv
    have hnorm := Layer.norm_record (hweights l hl) hne (hcomplete l hl) now
    have hnorms : passes.map l.normIn ≠ [] := by simpa using hne
    have hnonneg : ∀ x ∈ passes.map l.normIn, 0 ≤ x := by
      simp [Layer.normIn_nonneg]
    refine ⟨l, hl, congrArg Value.text (Watched.heard_name _ _), hnorm, ?_, ?_⟩
    · rw [hnorm]
      exact mean_le_quadraticMean hnorms
    · rw [hnorm]
      exact quadraticMean_eq_mean_iff hnorms hnonneg

/-- A pass that leaves nothing at the first weight of a layer and `x` at the other. -/
noncomputable def biasPass (x : ℝ) : Gradient ℝ :=
  [("affine.bias", .filled [1] x), ("affine.kernel", .filled [2, 1] 0)]

theorem reportsIn_biasPass (x : ℝ) : (affineLayer ℝ).reportsIn (biasPass x) = biasPass x := by
  simp [Layer.reportsIn, biasPass, trainableKeys, affineLayer, Layer.weightKey]

theorem biasPass_complete (x : ℝ) : (affineLayer ℝ).Complete (biasPass x) := by
  rw [Layer.Complete, reportsIn_biasPass]
  exact .swap _ _ []

theorem normIn_biasPass {x : ℝ} (hx : 0 ≤ x) : (affineLayer ℝ).normIn (biasPass x) = x := by
  rw [Layer.normIn, reportsIn_biasPass, Gradient.norm, Gradient.squareSum_real]
  simp [biasPass, Tensor.squareSum_filled, hx]

/-- Two passes in which the layer has the norms 2 and 8. -/
noncomputable def unevenPasses : List (Gradient ℝ) := [biasPass 2, biasPass 8]

theorem normIn_unevenPasses : unevenPasses.map (affineLayer ℝ).normIn = [2, 8] := by
  simp [unevenPasses, normIn_biasPass]

theorem unevenPasses_complete : ∀ p ∈ unevenPasses, (affineLayer ℝ).Complete p := by
  simp [unevenPasses, biasPass_complete]

/-- The reports of these passes. -/
noncomputable def unevenMoves : List (Move ℝ) := unevenPasses.flatten.map fun e => .report e.1 e.2

theorem popSummary_norm_uneven :
    unevenPasses ≠ [] ∧ sinceReset unevenMoves = unevenPasses.flatten ∧
    (∀ l ∈ (affine ℝ).watchedLayers, ∀ p ∈ unevenPasses, l.Complete p) ∧
    ∃ s, (((ofModel (affine ℝ) true).after unevenMoves).popSummary (affine ℝ) none).1 = some s ∧
      ∃ r ∈ s.layers, r.norm = quadraticMean [2, 8] := by
  have hne : unevenPasses ≠ [] := by simp [unevenPasses]
  have hcomplete : ∀ l ∈ (affine ℝ).watchedLayers, ∀ p ∈ unevenPasses, l.Complete p := by
    simpa [watchedLayers_affine] using unevenPasses_complete
  have hsize : ((affineLayer ℝ).reporters.map (·.2.size)).sum ≠ 0 := by decide
  obtain ⟨hall, hnorms⟩ := popSummary_norm hne (rfl : sinceReset unevenMoves = _) hcomplete true
    (affine ℝ)
  obtain ⟨s, hs, r, hr, -⟩ := hall _ (List.mem_singleton.mpr rfl) hsize
  obtain ⟨l, hl, -, hnorm, -⟩ := hnorms none s hs r hr
  obtain rfl := List.mem_singleton.mp hl
  exact ⟨hne, rfl, hcomplete, s, hs, r, hr, normIn_unevenPasses ▸ hnorm⟩

/-- The norm that is given is not the mean of the norms in the passes. -/
theorem popSummary_norm_ne_mean :
    ∃ s, (((ofModel (affine ℝ) true).after unevenMoves).popSummary (affine ℝ) none).1 = some s ∧
      ∃ r ∈ s.layers, r.name = .text "affine" ∧
        r.norm ≠ mean (unevenPasses.map (affineLayer ℝ).normIn) := by
  have hkeys : trainableKeys (affineLayer ℝ) ≠ [] := by decide
  have hne : unevenPasses ≠ [] := by simp [unevenPasses]
  have hlayers : ((ofModel (affine ℝ) true).after unevenMoves).layers =
      [(affineLayer ℝ).watched.heard unevenPasses.flatten] := after_layers _ _ _
  have hentries : ((affineLayer ℝ).watched.heard unevenPasses.flatten).tally.entries ≠ 0 := by
    rw [((Layer.accountedBy_heard hkeys _).passes _ rfl unevenPasses_complete).2.2]
    decide
  obtain ⟨s, hs, hr⟩ := exists_popSummary (hlayers ▸ List.mem_singleton.mpr rfl) hentries
    (affine ℝ)
  refine ⟨s, hs, _, hr, congrArg Value.text (Watched.heard_name _ _), fun hmean => ?_⟩
  rw [Layer.norm_record hkeys hne unevenPasses_complete, normIn_unevenPasses,
    quadraticMean_eq_mean_iff (by simp) (by simp)] at hmean
  simp at hmean

end Watcher

end BlockNet
