import BlockNet.Proofs.Layer.Single
import BlockNet.Proofs.Sample.Laid
import Mathlib.Tactic.Ring

/-! # Layers of one input look at one sample at a time

What a layer gives for a batch is, sample by sample, what it gives for the sample alone. -/

namespace BlockNet

variable {α : Type} [Scalar α]

/-! ## Sums over the same numbers -/

namespace Scalar

theorem sum_congr {n : Nat} {f g : Nat → α} (h : ∀ k < n, f k = g k) : sum n f = sum n g := by
  induction n with
  | zero => rfl
  | succ n ih =>
      have ih := ih fun k hk => h k (Nat.lt_succ_of_lt hk)
      rw [sum, sum] at ih ⊢
      rw [Nat.fold_succ, Nat.fold_succ, ih, h n (Nat.lt_succ_self n)]

theorem largest_congr {n : Nat} {f g : Nat → α} (h : ∀ k ≤ n, f k = g k) :
    largest n f = largest n g := by
  induction n with
  | zero => exact h 0 (Nat.le_refl 0)
  | succ n ih =>
      have ih := ih fun k hk => h k (Nat.le_succ_of_le hk)
      rw [largest, largest] at ih ⊢
      rw [Nat.fold_succ, Nat.fold_succ, ih, h (n + 1) (Nat.le_refl _)]

theorem mean_congr {n : Nat} {f g : Nat → α} (h : ∀ k < n, f k = g k) : mean n f = mean n g := by
  rw [mean, mean, sum_congr h]

end Scalar

omit [Scalar α] in
theorem Tensor.row_congr {n : Nat} {f g : Nat → α} (h : ∀ k < n, f k = g k) :
    row n f = row n g := by
  rw [row, row]
  congr 1
  funext k
  exact h k k.isLt

theorem Activation.shares_congr {n : Nat} {f g : Nat → α} (h : ∀ k < n, f k = g k) :
    shares n f = shares n g := by
  rw [shares, shares, Tensor.row_congr h]

theorem Normalization.moments_congr {epsilon : α} {n : Nat} {f g : Nat → α}
    (h : ∀ k < n, f k = g k) : moments epsilon n f = moments epsilon n g := by
  rw [moments, moments, Scalar.mean_congr h]
  simp only [Prod.mk.injEq, true_and]
  rw [Scalar.mean_congr fun k hk => by rw [h k hk]]

variable {b i : Nat} (hi : i < b)

include hi

/-! ## Rows -/

theorem Affine.apply_alone {x y : Tensor α} {s s' : List Nat} {rows inputs outputs : Nat}
    (h : x.Alone b i s y) (hs : volume s = rows * inputs) (hs' : volume s' = rows * outputs)
    (w : Nat → Nat → α) (bias : Nat → α) :
    (apply x (b :: s') inputs outputs w bias).Alone b i s'
      (apply y (1 :: s') inputs outputs w bias) := by
  refine Tensor.Alone.ofRows hi hs' fun r hr => Tensor.row_congr fun j _ => ?_
  refine congrArg (· + bias j) (Scalar.sum_congr fun k hk => ?_)
  rw [h.rowEntry hs hr hk]

/-- Activations see one row at a time. -/
theorem Activation.apply_alone {x y : Tensor α} {s : List Nat} (h : x.Alone b i s y) (hs : s ≠ [])
    (a : Activation) : Both (Tensor.Alone b i s) (a.apply x) (a.apply y) := by
  obtain ⟨front, last, rfl⟩ := (List.eq_nil_or_concat' s).resolve_left hs
  have hx : x.dims = (b :: front) ++ [last] := h.dims
  have hy : y.dims = (1 :: front) ++ [last] := h.lone
  cases a with
  | relu | sigmoid | tanh => exact .ok (h.map _)
  | linear => exact .ok h
  | softmax =>
      rw [Activation.apply, Activation.apply, shareRows, shareRows, Tensor.width_eq hx,
        Tensor.width_eq hy]
      split
      · exact .left _ _
      · rw [h.dims, h.lone]
        refine .ok (.ofRows hi (Tensor.volume_concat front last) fun r hr =>
          shares_congr fun k hk => ?_)
        exact h.rowEntry (Tensor.volume_concat front last) hr hk

theorem Activation.applyNamed_alone {x y : Tensor α} {s : List Nat} (h : x.Alone b i s y)
    (hs : s ≠ []) (params : Entries) :
    Both (fun t u => ∃ s', t.Alone b i s' u) (applyNamed params x) (applyNamed params y) :=
  .same_bind fun _ _ => .same_bind fun a _ => (apply_alone hi h hs a).mono fun _ _ h => ⟨s, h⟩

/-! ## Dense layers -/

theorem Dense.linear_alone {x y : Tensor α} {front : List Nat} {last : Nat}
    (h : x.Alone b i (front ++ [last]) y) (kernel : Tensor α) (bias : Option (Tensor α)) :
    Both (fun t u => ∃ units, t.Alone b i (front ++ [units]) u) (linear x kernel bias)
      (linear y kernel bias) := by
  have hx : x.dims = (b :: front) ++ [last] := h.dims
  have hy : y.dims = (1 :: front) ++ [last] := h.lone
  rw [linear, linear, hx, hy, List.getLast?_concat, List.getLast?_concat, List.dropLast_concat,
    List.dropLast_concat]
  split
  · rename_i features units _
    split
    · rename_i hfeatures
      obtain rfl := Option.some.inj hfeatures
      exact .ok ⟨units, Affine.apply_alone hi h (Tensor.volume_concat front last)
        (Tensor.volume_concat front units) _ _⟩
    · exact .left _ _
  · exact .left _ _

variable {x y : Signal α} {xs ys : List (Signal α)} {s : List Nat}

theorem Dense.forward_alone (h : x.Alone b i s y) (hs : s ≠ []) (layer : Layer α) :
    Both (fun t u => ∃ s', t.Alone b i s' u) (forward layer (x :: xs))
      (forward layer (y :: ys)) := by
  obtain ⟨front, last, rfl⟩ := (List.eq_nil_or_concat' s).resolve_left hs
  rw [forward, forward, firstOf_cons, firstOf_cons, ok_bind, ok_bind]
  refine .same_bind fun kernel _ => (linear_alone hi h.toReal kernel _).bind ?_
  rintro t u ⟨units, htu⟩
  exact Activation.applyNamed_alone hi htu (by simp) layer.params

/-! ## Images -/

omit hi in
theorem Convolution.images_alone (h : x.Alone b i s y) {shapes : List TensorShape}
    {kind : String} :
    Both (fun p q => ∃ image t u, p = (image, b, t) ∧ q = (image, 1, u) ∧
        (∃ shape, firstOf shapes = .ok shape ∧ shape.imageSize kind = .ok image) ∧
        t.Alone b i [image.height, image.width, image.channels] u)
      (images shapes kind (x :: xs)) (images shapes kind (y :: ys)) := by
  refine .same_bind fun shape hshape => .same_bind fun image himage => ?_
  rw [firstOf_cons, firstOf_cons, ok_bind, ok_bind, h.batch.1, h.batch.2, ok_bind, ok_bind]
  refine (h.toReal.reshape _).bind fun t u htu => .ok ?_
  exact ⟨image, t, u, rfl, rfl, ⟨shape, hshape, himage⟩, htu⟩

namespace Convolution

omit [Scalar α] hi

theorem volume_image (h w c : Nat) : volume [h, w, c] = h * w * c := by
  simp [Nat.mul_assoc]

/-- The sample, the row, the column and the channel that a position stands for. -/
theorem place_digits {h w c n : Nat} (hn : n < h * w * c) (i : Nat) :
    (i * (h * w * c) + n) % c = n % c ∧ (i * (h * w * c) + n) / c % w = n / c % w ∧
      (i * (h * w * c) + n) / c / w % h = n / c / w ∧
      (i * (h * w * c) + n) / c / w / h = i ∧ n / c / w < h := by
  obtain ⟨hpixel, hchannel, hlt⟩ := Tensor.split_place (i := i) hn
  obtain ⟨hrow, hcolumn, hlt'⟩ := Tensor.split_place (i := i) hlt
  rw [hpixel, hrow, hcolumn]
  exact ⟨hchannel, rfl, Tensor.mod_place hlt' i, Tensor.div_place hlt' i, hlt'⟩

theorem pixel_lt {image : ImageSize} {row column c : Nat} (hrow : row < image.height)
    (hcolumn : column < image.width) (hc : c < image.channels) :
    pixel image image.channels 0 row column c < image.height * image.width * image.channels := by
  rw [pixel, Nat.zero_mul, Nat.zero_add]
  exact Tensor.place_lt (Tensor.place_lt hrow hcolumn) hc

theorem meets?_lt {extent k place offset n : Nat} (h : meets? extent k place offset = some n) :
    n < extent := by
  rw [meets?, Option.ite_none_right_eq_some] at h
  obtain ⟨⟨-, hlt⟩, h⟩ := h
  exact Option.some.inj h ▸ hlt

variable [Scalar α]

/-- A pixel of a sample. -/
theorem pixel_alone {t u : Tensor α} {image : ImageSize}
    (h : t.Alone b i [image.height, image.width, image.channels] u) {row column c : Nat}
    (hrow : row < image.height) (hcolumn : column < image.width) (hc : c < image.channels) :
    u.entry (pixel image image.channels 0 row column c) =
      t.entry (pixel image image.channels i row column c) := by
  have hplace := pixel_lt hrow hcolumn hc
  rw [← volume_image] at hplace
  rw [h.entry hplace, volume_image]
  congr 1
  simp only [pixel]
  ring

theorem overKernel_congr {image : ImageSize} {k row column : Nat}
    {f g : Nat → Nat → Nat → Nat → α}
    (h : ∀ u v r c, r < image.height → c < image.width → f u v r c = g u v r c) :
    overKernel image k row column f = overKernel image k row column g := by
  refine Scalar.sum_congr fun u _ => ?_
  split
  · rfl
  · rename_i r hr
    refine Scalar.sum_congr fun v _ => ?_
    split
    · rfl
    · rename_i c hc
      exact h u v r c (meets?_lt hr) (meets?_lt hc)

include hi

theorem convolve_alone {t u : Tensor α} {image : ImageSize}
    (h : t.Alone b i [image.height, image.width, image.channels] u) (k filters : Nat)
    (kernel : Tensor α) (bias : Option (Tensor α)) :
    (convolve image k filters b t kernel bias).Alone b i [image.height, image.width, filters]
      (convolve image k filters 1 u kernel bias) := by
  refine Tensor.Alone.ofFn hi fun n hn => ?_
  rw [volume_image] at hn ⊢
  obtain ⟨hfilter, hcolumn, hrow, hsample, hlt⟩ := place_digits hn i
  simp only [hfilter, hcolumn, hrow, hsample, Nat.mod_eq_of_lt hlt, Nat.div_eq_of_lt hlt]
  -- the border counts for nothing, so that no place of another sample is met
  refine congrArg _ (overKernel_congr fun u v row column hrow hcolumn => ?_)
  exact Scalar.sum_congr fun c hc => by rw [pixel_alone h hrow hcolumn hc]

theorem forward_alone (h : x.Alone b i s y) (layer : Layer α) :
    Both (fun t u => ∃ s', t.Alone b i s' u) (forward layer (x :: xs))
      (forward layer (y :: ys)) := by
  refine (images_alone h).bind ?_
  rintro _ _ ⟨image, t, u, rfl, rfl, -, htu⟩
  refine .same_bind fun kernel _ => ?_
  dsimp only
  split
  · exact .left _ _
  · exact Activation.applyNamed_alone hi (convolve_alone hi htu _ _ _ _) (List.cons_ne_nil _ _)
      layer.params

end Convolution

namespace Pooling

theorem largest_alone {t u : Tensor α} {image : ImageSize}
    (h : t.Alone b i [image.height, image.width, image.channels] u) {pool : Nat}
    (hpool : 0 < pool) :
    (largest image pool b t).Alone b i
      [image.height / pool, image.width / pool, image.channels] (largest image pool 1 u) := by
  refine Tensor.Alone.ofFn hi fun n hn => ?_
  rw [Convolution.volume_image] at hn ⊢
  obtain ⟨hchannel, hcolumn, hrow, hsample, hlt⟩ := Convolution.place_digits hn i
  have hchannels : 0 < image.channels := Nat.pos_of_mul_pos_left (Nat.zero_lt_of_lt hn)
  have hwidth : 0 < image.width / pool := by
    have hplaces := Nat.pos_of_mul_pos_right (Nat.zero_lt_of_lt hn)
    exact Nat.pos_of_mul_pos_left hplaces
  -- pixels that fill no whole square are dropped, so every square lies inside
  have hsquare : ∀ {extent place offset : Nat}, place < extent / pool → offset < pool →
      place * pool + offset < extent := by
    intro extent place offset hplace hoffset
    exact Nat.lt_of_lt_of_le (Tensor.place_lt hplace hoffset) (Nat.div_mul_le_self extent pool)
  refine Scalar.largest_congr fun k hk => ?_
  have hk : k / pool < pool := by
    have hpos := Nat.mul_pos hpool hpool
    exact Nat.div_lt_of_lt_mul (by omega)
  simp only [member, hchannel, hcolumn, hrow, hsample, Nat.mod_eq_of_lt hlt, Nat.div_eq_of_lt hlt]
  exact Convolution.pixel_alone h (hsquare hlt hk)
    (hsquare (Nat.mod_lt _ hwidth) (Nat.mod_lt k hpool)) (Nat.mod_lt n hchannels)

theorem forward_alone (h : x.Alone b i s y) (layer : Layer α) :
    Both (fun t u => ∃ s', t.Alone b i s' u) (forward layer (x :: xs))
      (forward layer (y :: ys)) := by
  refine .same_bind fun shape hshape => .same_bind fun image himage => .same_bind fun pool _ =>
    (Convolution.images_alone h).bind ?_
  rintro _ _ ⟨image', t, u, rfl, rfl, ⟨shape', hshape', himage'⟩, htu⟩
  obtain rfl : shape = shape' := Except.ok.inj (hshape.symm.trans hshape')
  obtain rfl : image = image' := Except.ok.inj (himage.symm.trans himage')
  dsimp only
  split
  · exact .left _ _
  · exact .ok ⟨_, largest_alone hi htu (by omega)⟩

end Pooling

/-! ## Flattening and dropout -/

omit [Scalar α] in
theorem Signal.flattened_alone (h : x.Alone b i s y) :
    Both (Signal.Alone b i [volume s]) x.flattened y.flattened := by
  have hsize : x.size / b = volume s := by
    rw [Signal.size, h.dims.1, volume_cons, Nat.mul_div_cancel_left _ (Nat.zero_lt_of_lt hi)]
  have hlone : y.size / 1 = volume s := by
    rw [Signal.size, h.dims.2, volume_cons, Nat.one_mul, Nat.div_one]
  rw [flattened, flattened, h.batch.1, h.batch.2, ok_bind, ok_bind, hsize, hlone]
  split
  · exact .left _ _
  · exact h.reshape _

omit hi in
/-- Nothing is dropped unless a model is being trained. -/
theorem Dropout.forward_alone (h : x.Alone b i s y) (layer : Layer α) :
    Agree (Signal.Alone b i s) (Dropout.forward layer (x :: xs) false)
      (Dropout.forward layer (y :: ys) false) := by
  refine (Agree.lift (.ok h)).bind fun x y h => .same_bind fun rate _ => ?_
  have hidle : isActive rate false = false := rfl
  rw [hidle, if_neg Bool.false_ne_true, if_neg Bool.false_ne_true]
  exact .pure h

/-! ## Normalization of rows -/

namespace Normalization

omit [Scalar α] hi in
theorem Grouping.ofRows_eq {front : List Nat} {c : Nat} (hc : 0 < c) (m : Nat) :
    Grouping.ofRows (m :: (front ++ [c])) =
      ⟨m * volume front, c, fun n => n / c, fun r k => r * c + k⟩ := by
  have hcount : volume (m :: (front ++ [c])) / c = m * volume front := by
    rw [volume_cons, Tensor.volume_concat, ← Nat.mul_assoc, Nat.mul_div_cancel _ hc]
  have hwidth : (m :: (front ++ [c])).getLast?.getD 1 = c := by
    rw [← List.cons_append, List.getLast?_concat, Option.getD_some]
  rw [Grouping.ofRows, hwidth, hcount]

omit hi in
theorem Grouping.moments_getD {groups : Grouping} {n : Nat} (hn : groups.groupOf n < groups.count)
    (epsilon : α) (t : Tensor α) :
    (groups.moments epsilon t).getD (groups.groupOf n) (0, 0) =
      Normalization.moments epsilon groups.size
        fun k => t.entry (groups.member (groups.groupOf n) k) :=
  Tensor.getD_ofFn hn (fun r => Normalization.moments epsilon groups.size
    fun k => t.entry (groups.member r k)) (0, 0)

theorem normalized_alone {t u : Tensor α} {front : List Nat} {c : Nat}
    (h : t.Alone b i (front ++ [c]) u) (epsilon : α) :
    (normalized (Grouping.ofRows t.dims) epsilon t).Alone b i (front ++ [c])
      (normalized (Grouping.ofRows u.dims) epsilon u) := by
  have hs := Tensor.volume_concat front c
  rw [normalized, normalized, h.dims, h.lone]
  refine .ofFn hi fun n hn => ?_
  have hc : 0 < c := Nat.pos_of_mul_pos_left (Nat.zero_lt_of_lt (hs ▸ hn))
  obtain ⟨hrow, -, hlt⟩ := Tensor.split_place (i := i) (hs ▸ hn)
  rw [Grouping.ofRows_eq hc, Grouping.ofRows_eq hc, hs, Grouping.moments_getD,
    Grouping.moments_getD]
  · dsimp only
    rw [hrow, h.entry hn, hs, moments_congr fun k hk => h.rowEntry hs hlt hk]
  · dsimp only
    rw [hrow]
    exact Tensor.place_lt hi hlt
  · dsimp only
    rwa [Nat.one_mul]

theorem stretched_alone {t u gamma beta : Tensor α} {front : List Nat} {c : Nat}
    (h : t.Alone b i (front ++ [c]) u) (hgamma : gamma.dims = [c]) (hbeta : beta.dims = [c]) :
    Both (Tensor.Alone b i (front ++ [c])) (stretched t gamma beta) (stretched u gamma beta) :=
  (h.zipWith_last hi hgamma _).bind fun _ _ hscaled => hscaled.zipWith_last hi hbeta _

theorem forwardRows_alone (h : x.Alone b i s y) (hs : s ≠ []) {layer : Layer α} {c : Nat}
    {gamma beta : Tensor α} (hgamma : layer.weight "gamma" = .ok gamma) (hgdims : gamma.dims = [c])
    (hbeta : layer.weight "beta" = .ok beta) (hbdims : beta.dims = [c]) :
    Both (fun t u => ∃ s', t.Alone b i s' u) (forwardRows layer (x :: xs))
      (forwardRows layer (y :: ys)) := by
  obtain ⟨front, last, rfl⟩ := (List.eq_nil_or_concat' s).resolve_left hs
  have hlast : ∀ m, (m :: (front ++ [last])).getLast? = some last :=
    fun m => List.getLast?_concat (l := m :: front)
  have hxlast : x.toReal.dims.getLast? = some last := h.toReal.dims ▸ hlast b
  have hylast : y.toReal.dims.getLast? = some last := h.toReal.lone ▸ hlast 1
  rw [forwardRows, forwardRows, firstOf_cons, firstOf_cons, hgamma, hbeta]
  simp only [ok_bind, hxlast, hylast, Tensor.size_of_dims hgdims]
  refine .same_bind fun epsilon _ => ?_
  split
  · rename_i hchannels
    obtain rfl := Option.some.inj hchannels
    exact (stretched_alone hi (normalized_alone hi h.toReal epsilon) hgdims hbdims).mono
      fun _ _ h => ⟨_, h⟩
  · exact .left _ _

end Normalization

/-! ## Recurrent layers -/

namespace Recurrent

omit hi in
theorem Cell.next_congr {c : Cell α} {f g : Nat → α} (h : ∀ k < c.features, f k = g k)
    (state : State α) : c.next f state = c.next g state := by
  have hdrive : c.drive f state = c.drive g state := by
    funext j
    rw [drive, drive, Scalar.sum_congr fun k hk => by rw [h k hk]]
  rw [next, next, gates, gates, hdrive]

omit hi in
/-- A cell comes through the same states if it reads the same features. -/
theorem Cell.states_congr {c : Cell α} {steps : Nat} {f g : Nat → Nat → α}
    (h : ∀ t < steps, ∀ k < c.features, f t k = g t k) : c.states steps f = c.states steps g := by
  induction steps with
  | zero => rfl
  | succ steps ih =>
      have ih := ih fun t ht => h t (Nat.lt_succ_of_lt ht)
      rw [states, states] at ih ⊢
      rw [Nat.fold_succ, Nat.fold_succ, ih, Cell.next_congr (h steps (Nat.lt_succ_self steps))]

theorem run_alone {c : Cell α} {steps : Nat} {t u : Tensor α}
    (h : t.Alone b i [steps, c.features] u) (everyStep : Bool) :
    ∃ s', (run c b steps t everyStep).Alone b i s' (run c 1 steps u everyStep) := by
  have hs : volume [steps, c.features] = steps * c.features := by simp
  have hpast : ∀ r < 1, c.states steps (fun n k => u.entry ((r * steps + n) * c.features + k)) =
      c.states steps fun n k => t.entry (((i * 1 + r) * steps + n) * c.features + k) := by
    intro r hr
    obtain rfl : r = 0 := Nat.lt_one_iff.mp hr
    refine Cell.states_congr fun n hn k hk => ?_
    rw [Nat.zero_mul, Nat.zero_add, Nat.mul_one, Nat.add_zero]
    exact h.rowEntry hs hn hk
  rw [run, run]
  split
  · have hrows : volume [steps, c.units] = 1 * (steps * c.units) := by simp
    refine ⟨_, Tensor.Alone.ofRows hi hrows fun r hr => ?_⟩
    simp only [hpast r hr]
  · have hrows : volume [c.units] = 1 * c.units := by simp
    refine ⟨_, Tensor.Alone.ofRows hi hrows fun r hr => ?_⟩
    simp only [hpast r hr]

theorem forward_alone (h : x.Alone b i s y) (layer : Layer α) :
    Both (fun t u => ∃ s', t.Alone b i s' u) (forward layer (x :: xs))
      (forward layer (y :: ys)) := by
  refine .same_bind fun shape _ => .same_bind fun sequence _ => .same_bind fun units _ => ?_
  rw [firstOf_cons, firstOf_cons, ok_bind, ok_bind, h.batch.1, h.batch.2, ok_bind, ok_bind]
  refine (h.toReal.reshape _).bind fun t u htu => ?_
  split
  · exact .left _ _
  · refine .same_bind fun c hc => ?_
    have hfeatures : c.features = sequence.features := by
      obtain ⟨input, -, hc⟩ := bind_eq_ok.mp hc
      obtain ⟨hidden, -, hc⟩ := bind_eq_ok.mp hc
      obtain ⟨bias, -, hc⟩ := bind_eq_ok.mp hc
      rw [← Except.ok.inj hc]
    dsimp only
    split
    · exact .left _ _
    · exact .ok (run_alone hi (hfeatures ▸ htu) _)

end Recurrent

end BlockNet
