import BlockNet.Proofs.Layer.Alike
import BlockNet.Proofs.Layer.Weights

/-! # Weights read off a stream

The weights of a layer take their first values from the stream one after the other: a drawn weight
takes a draw for each of its entries, row by row, and every other weight is filled with one number
and takes none. -/

namespace BlockNet

variable {α : Type} [Scalar α]

/-! ## Moving on in a stream -/

namespace Generator

@[simp]
theorem skip_zero (g : Generator) : g.skip 0 = g := by
  simp [skip]

theorem skip_skip (g : Generator) (m n : Nat) : (g.skip m).skip n = g.skip (m + n) := by
  simp only [skip, UInt64.ofNat_add, UInt64.mul_add, UInt64.add_assoc]

/-- The draws ahead are the same draws from further on. -/
theorem uniformAt_skip (g : Generator) (m n : Nat) :
    ((g.skip m).uniformAt n : α) = g.uniformAt (m + n) := by
  rw [uniformAt, uniformAt, drawAt, drawAt, skip_skip, Nat.add_assoc]

end Generator

/-! ## Bounds -/

/-- The numbers of inputs and outputs that weights of some axes have: the sizes of a matrix, and
what a kernel over images reads and writes at a place. -/
def fansOf : List Nat → Nat × Nat
  | [a, b] => (a, b)
  | [k, l, channels, filters] => (k * l * channels, k * l * filters)
  | _ => (0, 0)

/-- Half the width of the interval around zero that the first values of a weight lie in. -/
def Weight.bound (w : Weight α) : Outcome α :=
  fanBound (.whole (fansOf w.tensor.dims).1) (.whole (fansOf w.tensor.dims).2)

/-- Inputs and outputs count alike. -/
theorem fanBound_comm (a b : Int) :
    (fanBound (.whole a) (.whole b) : Outcome α) = fanBound (.whole b) (.whole a) := by
  simp only [fanBound, Number.plus, Number.integer?, Int.add_comm]

theorem pos_of_volume {dims : List Int} (h : 0 < volume (dims.map Int.toNat)) :
    ∀ d ∈ dims, 0 < d := by
  induction dims with
  | nil => simp
  | cons d dims ih =>
      rw [List.map_cons, volume_cons] at h
      have hd := Nat.pos_of_mul_pos_right h
      have hdims := ih (Nat.pos_of_mul_pos_left h)
      rw [List.forall_mem_cons]
      exact ⟨by omega, hdims⟩

/-! ## One weight -/

/-- A weight of numbers spread evenly over its interval, by the draws of a stream in their order. -/
def Weight.DrawnFrom (g : Generator) (w : Weight α) : Prop :=
  ∀ i < w.tensor.size, ∃ bound, w.bound = .ok bound ∧
    w.tensor.entry i = (g.uniformAt i * Scalar.ofInt 2 - Scalar.one) * bound

theorem volume_of_zero {sizes : List Nat} (h : 0 ∈ sizes) : volume sizes = 0 := by
  induction sizes with
  | nil => cases h
  | cons n sizes ih =>
      rw [volume_cons]
      rcases List.mem_cons.mp h with rfl | h
      · exact Nat.zero_mul _
      · rw [ih h, Nat.mul_zero]

theorem drawnSizes_le {dims : List Int} {sizes : List Nat} (h : drawnSizes dims = .ok sizes) :
    volume sizes ≤ largestVolume := by
  rw [drawnSizes] at h
  split at h
  · -- an axis that is left open has no entries
    rename_i hopen
    obtain rfl := Except.ok.inj h
    have hmem : (-1 : Int) ∈ dims := List.count_pos_iff.mp (by omega)
    rw [volume_of_zero (List.mem_map_of_mem (f := Int.toNat) hmem)]
    exact Nat.zero_le _
  · rw [axisSizes] at h
    split at h
    · cases h
    · split at h
      · rename_i hfits
        obtain rfl := Except.ok.inj h
        exact hfits.2
      · cases h

/-- What a drawn weight takes from the stream: as many draws as it has entries, and no more than fit
into a tensor. -/
theorem drawnWeight_stream {name : String} {dims : List Int} {fanIn fanOut : Int} {w : Weight α}
    {g g' : Generator} (h : (drawnWeight name dims fanIn fanOut).run g = (.ok w, g')) :
    g' = g.skip w.tensor.size ∧ w.tensor.size ≤ largestVolume ∧
      ∃ bound, fanBound (.whole fanIn) (.whole fanOut) = .ok bound ∧ ∀ i < w.tensor.size,
        w.tensor.entry i = (g.uniformAt i * Scalar.ofInt 2 - Scalar.one) * bound := by
  rw [drawnWeight] at h
  obtain ⟨t, _, ht, h⟩ := run_bind_eq_ok.mp h
  obtain ⟨rfl, rfl⟩ := run_pure_eq_ok.mp h
  obtain ⟨bound, hbound, ht⟩ := run_lift_bind_eq_ok.mp ht
  obtain ⟨sizes, hsizes, ht⟩ := run_lift_bind_eq_ok.mp ht
  obtain ⟨whole, -, hsizes⟩ := bind_eq_ok.mp hsizes
  obtain ⟨whole, -, hsizes⟩ := bind_eq_ok.mp hsizes
  rw [run_get_bind, run_set_bind] at ht
  obtain ⟨rfl, rfl⟩ := run_pure_eq_ok.mp ht
  refine ⟨rfl, drawnSizes_le hsizes, bound, hbound, ?_⟩
  intro i hi
  exact Tensor.entry_ofFn hi

/-- The numbers of inputs and outputs are those that the axes tell, in either order. -/
def FansTold (dims : List Int) (fanIn fanOut : Int) : Prop :=
  (∀ d ∈ dims, 0 < d) →
    ((fansOf (dims.map Int.toNat)).1 = fanIn ∧ ((fansOf (dims.map Int.toNat)).2 : Int) = fanOut) ∨
    ((fansOf (dims.map Int.toNat)).1 = fanOut ∧ ((fansOf (dims.map Int.toNat)).2 : Int) = fanIn)

/-- A weight whose axes tell the interval that its entries lie in. -/
theorem drawnWeight_drawnFrom {name : String} {dims : List Int} {fanIn fanOut : Int} {w : Weight α}
    {g g' : Generator} (h : (drawnWeight name dims fanIn fanOut).run g = (.ok w, g'))
    (hfans : FansTold dims fanIn fanOut) :
    w.DrawnFrom g ∧ g' = g.skip w.tensor.size := by
  obtain ⟨hskip, -, bound, hbound, hentries⟩ := drawnWeight_stream h
  have hdims := (drawnWeight_eq_ok h).2
  refine ⟨?_, hskip⟩
  intro i hi
  refine ⟨bound, ?_, hentries i hi⟩
  have hpos : 0 < volume (dims.map Int.toNat) := by
    rw [← hdims]
    exact Nat.zero_lt_of_lt hi
  rw [Weight.bound, hdims]
  rcases hfans (pos_of_volume hpos) with ⟨hin, hout⟩ | ⟨hout, hin⟩
  · rw [hin, hout, hbound]
  · rw [hin, hout, fanBound_comm, hbound]

/-- A weight that holds one number everywhere. -/
def Weight.Filled (w : Weight α) : Prop := ∃ x, w.tensor = Tensor.filled w.tensor.dims x

theorem constantWeight_filled {name : String} {dims : List Int} {value : Value} {w : Weight α}
    (h : constantWeight name dims value = .ok w) : w.Filled := by
  obtain ⟨t, ht, h⟩ := bind_eq_ok.mp h
  obtain rfl := Except.ok.inj h
  obtain ⟨x, -, ht⟩ := bind_eq_ok.mp ht
  obtain ⟨sizes, -, ht⟩ := bind_eq_ok.mp ht
  obtain rfl := Except.ok.inj ht
  exact ⟨Scalar.ofFloat x, rfl⟩

/-! ## Weights one after the other -/

/-- Weights that are read off a stream in their order, and the stream that they leave. -/
inductive Streamed : Generator → List (Weight α) → Generator → Prop where
  | nil (g : Generator) : Streamed g [] g
  | drawn {g g' : Generator} {w : Weight α} {ws : List (Weight α)}
      (hname : w.name ∈ Weight.drawnNames) (hw : w.DrawnFrom g)
      (h : Streamed (g.skip w.tensor.size) ws g') : Streamed g (w :: ws) g'
  | filled {g g' : Generator} {w : Weight α} {ws : List (Weight α)}
      (hname : w.name ∉ Weight.drawnNames) (hw : w.Filled) (h : Streamed g ws g') :
      Streamed g (w :: ws) g'

namespace Streamed

variable {g g' g'' : Generator} {ws vs : List (Weight α)}

theorem append (h : Streamed g ws g') (h' : Streamed g' vs g'') : Streamed g (ws ++ vs) g'' := by
  induction h with
  | nil g => exact h'
  | drawn hname hw _ ih => exact .drawn hname hw (ih h')
  | filled hname hw _ ih => exact .filled hname hw (ih h')

/-- The weights among others that are drawn. -/
def drawnOf (ws : List (Weight α)) : List (Weight α) :=
  ws.filter fun w => Weight.drawnNames.contains w.name

/-- Each entry of a drawn weight is made of the draw after those of all entries before it. -/
theorem entry_eq (h : Streamed g ws g') {front back : List (Weight α)} {w : Weight α}
    (hsplit : drawnOf ws = front ++ w :: back) {i : Nat} (hi : i < w.tensor.size) :
    ∃ bound, w.bound = .ok bound ∧ w.tensor.entry i =
      (g.uniformAt (combined (front.map fun v => v.tensor.size) + i) * Scalar.ofInt 2 - Scalar.one)
        * bound := by
  induction h generalizing front with
  | nil g => simp [drawnOf] at hsplit
  | @drawn g g' v ws hname hv h ih =>
      have hfilter : drawnOf (v :: ws) = v :: drawnOf ws := by simp [drawnOf, hname]
      rw [hfilter] at hsplit
      cases front with
      | nil =>
          obtain ⟨rfl, -⟩ := List.cons.inj hsplit
          simpa using hv i hi
      | cons v' front =>
          obtain ⟨rfl, hrest⟩ := List.cons.inj hsplit
          obtain ⟨bound, hbound, hentry⟩ := ih hrest
          refine ⟨bound, hbound, ?_⟩
          rw [hentry, Generator.uniformAt_skip, List.map_cons, combined_cons, Nat.add_assoc]
  | @filled g g' v ws hname hv h ih =>
      have hfilter : drawnOf (v :: ws) = drawnOf ws := by simp [drawnOf, hname]
      rw [hfilter] at hsplit
      exact ih hsplit

/-- The stream moves on by the entries of the drawn weights. -/
theorem skip_eq (h : Streamed g ws g') :
    g' = g.skip (combined ((drawnOf ws).map fun w => w.tensor.size)) := by
  induction h with
  | nil g => simp [drawnOf]
  | @drawn g g' v ws hname hv h ih =>
      have hfilter : drawnOf (v :: ws) = v :: drawnOf ws := by simp [drawnOf, hname]
      rw [ih, hfilter, List.map_cons, combined_cons, Generator.skip_skip]
  | @filled g g' v ws hname hv h ih =>
      have hfilter : drawnOf (v :: ws) = drawnOf ws := by simp [drawnOf, hname]
      rw [ih, hfilter]

theorem filled_of_notMem (h : Streamed g ws g') {w : Weight α} (hw : w ∈ ws)
    (hname : w.name ∉ Weight.drawnNames) : w.Filled := by
  induction h with
  | nil g => cases hw
  | drawn hdrawn _ _ ih =>
      rcases List.mem_cons.mp hw with rfl | hw
      · exact absurd hdrawn hname
      · exact ih hw
  | filled _ hfilled _ ih =>
      rcases List.mem_cons.mp hw with rfl | hw
      · exact hfilled
      · exact ih hw

end Streamed

/-! ## Kernel by kernel -/

variable {params : Entries} {shapes : List TensorShape} {ws : List (Weight α)} {g g' : Generator}

theorem biasWeight_streamed {size : Int} (h : biasWeight params size = .ok ws) (g : Generator) :
    Streamed g ws g := by
  rw [biasWeight] at h
  split at h
  · obtain ⟨b, hb, h⟩ := bind_eq_ok.mp h
    obtain rfl := Except.ok.inj h
    refine .filled ?_ (constantWeight_filled hb) (.nil g)
    rw [(constantWeight_eq_ok hb).1]
    decide
  · obtain rfl := Except.ok.inj h
    exact .nil g

/-- A drawn weight in front of others. -/
theorem drawnWeight_streamed {name : String} {dims : List Int} {fanIn fanOut : Int} {w : Weight α}
    {g₁ : Generator} (h : (drawnWeight name dims fanIn fanOut).run g = (.ok w, g₁))
    (hname : name ∈ Weight.drawnNames) (hfans : FansTold dims fanIn fanOut)
    (hrest : Streamed g₁ ws g') : Streamed g (w :: ws) g' := by
  obtain ⟨hdrawn, rfl⟩ := drawnWeight_drawnFrom h hfans
  exact .drawn ((drawnWeight_eq_ok h).1 ▸ hname) hdrawn hrest

/-- The sizes of a matrix are its inputs and outputs. -/
theorem fansOf_matrix {a b : Int} (h : ∀ d ∈ [a, b], 0 < d) :
    ((fansOf ([a, b].map Int.toNat)).1 : Int) = a ∧ ((fansOf ([a, b].map Int.toNat)).2 : Int) = b := by
  simp only [List.forall_mem_cons] at h
  simp only [List.map_cons, List.map_nil, fansOf]
  omega

theorem Dense.build_streamed (h : (build params shapes).run g = (.ok ws, g')) :
    Streamed g ws g' := by
  obtain ⟨shape, -, h⟩ := run_lift_bind_eq_ok.mp h
  obtain ⟨features, -, h⟩ := run_lift_bind_eq_ok.mp h
  obtain ⟨units, -, h⟩ := run_lift_bind_eq_ok.mp h
  obtain ⟨kernel, _, hkernel, h⟩ := run_bind_eq_ok.mp h
  obtain ⟨bias, hbias, h⟩ := run_lift_bind_eq_ok.mp h
  obtain ⟨rfl, rfl⟩ := run_pure_eq_ok.mp h
  exact drawnWeight_streamed hkernel (by decide) (fun hpos => .inl (fansOf_matrix hpos))
    (biasWeight_streamed hbias _)

theorem Convolution.build_streamed (h : (build params shapes).run g = (.ok ws, g')) :
    Streamed g ws g' := by
  obtain ⟨shape, -, h⟩ := run_lift_bind_eq_ok.mp h
  obtain ⟨image, -, h⟩ := run_lift_bind_eq_ok.mp h
  obtain ⟨k, -, h⟩ := run_lift_bind_eq_ok.mp h
  obtain ⟨filters, -, h⟩ := run_lift_bind_eq_ok.mp h
  obtain ⟨kernel, _, hkernel, h⟩ := run_bind_eq_ok.mp h
  obtain ⟨bias, hbias, h⟩ := run_lift_bind_eq_ok.mp h
  obtain ⟨rfl, rfl⟩ := run_pure_eq_ok.mp h
  refine drawnWeight_streamed hkernel (by decide) (fun hpos => .inl ?_) (biasWeight_streamed hbias _)
  simp only [List.forall_mem_cons] at hpos
  have hk : ((k.toNat : Nat) : Int) = k := by omega
  have hfilters : ((filters.toNat : Nat) : Int) = filters := by omega
  simp [fansOf, hk, hfilters]

theorem Recurrent.build_streamed (h : (build params shapes).run g = (.ok ws, g')) :
    Streamed g ws g' := by
  obtain ⟨shape, -, h⟩ := run_lift_bind_eq_ok.mp h
  obtain ⟨sequence, -, h⟩ := run_lift_bind_eq_ok.mp h
  obtain ⟨units, -, h⟩ := run_lift_bind_eq_ok.mp h
  obtain ⟨fromInput, _, hinput, h⟩ := run_bind_eq_ok.mp h
  obtain ⟨fromHidden, _, hhidden, h⟩ := run_bind_eq_ok.mp h
  obtain ⟨bias, hbias, h⟩ := run_lift_bind_eq_ok.mp h
  obtain ⟨rfl, rfl⟩ := run_pure_eq_ok.mp h
  refine drawnWeight_streamed hinput (by decide) (fun hpos => .inr (fansOf_matrix hpos)) ?_
  refine drawnWeight_streamed hhidden (by decide) (fun hpos => .inr (fansOf_matrix hpos)) ?_
  refine .filled ?_ (constantWeight_filled hbias) (.nil _)
  rw [(constantWeight_eq_ok hbias).1]
  decide

theorem Normalization.build_streamed {kind : String} (h : build kind shapes = .ok ws)
    (g : Generator) : Streamed g ws g := by
  obtain ⟨shape, -, h⟩ := bind_eq_ok.mp h
  obtain ⟨channels, -, h⟩ := bind_eq_ok.mp h
  obtain ⟨gamma, hgamma, h⟩ := bind_eq_ok.mp h
  obtain ⟨beta, hbeta, h⟩ := bind_eq_ok.mp h
  obtain rfl := Except.ok.inj h
  refine .filled ?_ (constantWeight_filled hgamma) (.filled ?_ (constantWeight_filled hbeta) (.nil g))
  · rw [(constantWeight_eq_ok hgamma).1]
    decide
  · rw [(constantWeight_eq_ok hbeta).1]
    decide

namespace Attention

/-- A stream of attention takes a matrix of draws; its bias is filled. -/
theorem buildStream_streamed {size : Int} {stream : String × TensorShape}
    (hstream : stream.1 ∈ streamNames) (h : (buildStream size stream).run g = (.ok ws, g')) :
    Streamed g ws g' := by
  have hnames : ∀ name ∈ streamNames,
      "w_" ++ name ∈ Weight.drawnNames ∧ "b_" ++ name ∉ Weight.drawnNames := by decide
  obtain ⟨hw, hb⟩ := hnames stream.1 hstream
  obtain ⟨sequence, -, h⟩ := run_lift_bind_eq_ok.mp h
  obtain ⟨w, _, hweight, h⟩ := run_bind_eq_ok.mp h
  obtain ⟨b, hbias, h⟩ := run_lift_bind_eq_ok.mp h
  obtain ⟨rfl, rfl⟩ := run_pure_eq_ok.mp h
  refine drawnWeight_streamed hweight hw (fun hpos => .inr (fansOf_matrix hpos)) ?_
  exact .filled ((constantWeight_eq_ok hbias).1 ▸ hb) (constantWeight_filled hbias) (.nil _)

theorem mapM_buildStream_streamed {size : Int} {streams : List (String × TensorShape)}
    {wss : List (List (Weight α))} (hstreams : ∀ stream ∈ streams, stream.1 ∈ streamNames)
    (h : (streams.mapM (buildStream size)).run g = (.ok wss, g')) : Streamed g wss.flatten g' := by
  induction streams generalizing g wss with
  | nil =>
      obtain ⟨rfl, rfl⟩ := run_pure_eq_ok.mp h
      exact .nil g
  | cons stream streams ih =>
      obtain ⟨hstream, hstreams⟩ := List.forall_mem_cons.mp hstreams
      rw [List.mapM_cons] at h
      obtain ⟨ws, _, hws, h⟩ := run_bind_eq_ok.mp h
      obtain ⟨rest, _, hrest, h⟩ := run_bind_eq_ok.mp h
      obtain ⟨rfl, rfl⟩ := run_pure_eq_ok.mp h
      rw [List.flatten_cons]
      exact (buildStream_streamed hstream hws).append (ih hstreams hrest)

theorem build_streamed (h : (build params shapes).run g = (.ok ws, g')) : Streamed g ws g' := by
  obtain ⟨size, -, h⟩ := run_lift_bind_eq_ok.mp h
  obtain ⟨inputs, -, h⟩ := run_lift_bind_eq_ok.mp h
  obtain ⟨inner, _, hinner, h⟩ := run_bind_eq_ok.mp h
  obtain ⟨w, _, hw, h⟩ := run_bind_eq_ok.mp h
  obtain ⟨b, hb, h⟩ := run_lift_bind_eq_ok.mp h
  obtain ⟨rfl, rfl⟩ := run_pure_eq_ok.mp h
  refine (mapM_buildStream_streamed (fun stream h => (List.of_mem_zip h).1) hinner).append ?_
  refine drawnWeight_streamed hw (by decide) (fun hpos => .inl (fansOf_matrix hpos)) ?_
  refine .filled ?_ (constantWeight_filled hb) (.nil _)
  rw [(constantWeight_eq_ok hb).1]
  decide

end Attention

/-- Every kernel reads the weights of a layer off the stream in their order. -/
theorem Kernel.build_streamed {k : Kernel} (h : (k.build params shapes).run g = (.ok ws, g')) :
    Streamed g ws g' := by
  cases k with
  | dense => exact Dense.build_streamed h
  | convolution => exact Convolution.build_streamed h
  | recurrent => exact Recurrent.build_streamed h
  | attention => exact Attention.build_streamed h
  | batchNorm | layerNorm =>
      simp only [Kernel.build] at h
      obtain ⟨hweights, rfl⟩ := run_lift_eq_ok.mp h
      exact Normalization.build_streamed hweights _
  | _ =>
      obtain ⟨rfl, rfl⟩ := run_pure_eq_ok.mp h
      exact .nil g

end BlockNet
