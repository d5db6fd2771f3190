import BlockNet.Proofs.Layer.Joined
import BlockNet.Proofs.Layer.Rate

/-! # Attention over batches

From batches of queries, keys and values attention gives a batch in its declared shape, unless it
is trained with a rate at which no shares can be dropped. -/

namespace BlockNet.Attention

open List

variable {α : Type} [Scalar α]

/-! ## Streams -/

omit [Scalar α] in
/-- Lists that belong together give streams that belong together. -/
theorem streams_forall₂ {β γ : Type} {R : β → γ → Prop} {xs : List β} {ys : List γ}
    (h : Forall₂ R xs ys) (hne : ys ≠ []) :
    ∃ q k v q' k' v', streams xs = .ok [q, k, v] ∧ streams ys = .ok [q', k', v'] ∧
      R q q' ∧ R k k' ∧ R v v' := by
  cases h with
  | nil => exact absurd rfl hne
  | cons hq h =>
      cases h with
      | nil => exact ⟨_, _, _, _, _, _, rfl, rfl, hq, hq, hq⟩
      | cons hk h =>
          cases h with
          | nil => exact ⟨_, _, _, _, _, _, rfl, rfl, hq, hk, hk⟩
          | cons hv h => exact ⟨_, _, _, _, _, _, rfl, rfl, hq, hk, hv⟩

/-! ## Heads -/

/-- The number of heads divides the number of features. -/
theorem heads_eq_ok (size : Int) {wanted : Int} (hwanted : 0 < wanted) :
    ∃ count, heads size wanted = .ok count ∧ 0 < count ∧ count ∣ size := by
  have hne : wanted ≠ 0 := by omega
  refine ⟨if size % wanted = 0 then wanted else Int.gcd size wanted, ?_, ?_⟩
  · rw [heads, if_neg hne]
  · split
    · rename_i hmod
      exact ⟨hwanted, Int.dvd_of_emod_eq_zero hmod⟩
    · exact ⟨by exact_mod_cast Int.gcd_pos_of_ne_zero_right size hne, Int.gcd_dvd_left ..⟩

/-- The heads share the features out among them. -/
theorem heads_mul_width {size : Nat} {count : Int} (hpos : 0 < count) (h : count ∣ (size : Int)) :
    count.toNat * ((size : Int) / count).toNat = size := by
  have hquotient : 0 ≤ (size : Int) / count := Int.ediv_nonneg (by omega) (by omega)
  have hproduct : count * ((size : Int) / count) = size := Int.mul_ediv_cancel' h
  apply Int.ofNat.inj
  rw [Int.ofNat_eq_natCast, Int.natCast_mul, Int.toNat_of_nonneg hquotient,
    Int.toNat_of_nonneg (Int.le_of_lt hpos), hproduct, Int.ofNat_eq_natCast]

/-- What a layer with fitting settings finds in them. -/
theorem settings_eq_ok {params : Entries} (hfit : params.Fit Kernel.attention.settings) :
    ∃ (wanted size : Nat) (count : Int), params.integer "heads" = .ok (wanted : Int) ∧
      params.integer "dim" = .ok (size : Int) ∧ 0 < size ∧ heads size wanted = .ok count ∧
      0 < count ∧ count.toNat * ((size : Int) / count).toNat = size := by
  obtain ⟨wanted, hwanted, hheads⟩ :
      ∃ n : Nat, 0 < n ∧ params.integer "heads" = .ok (n : Int) :=
    hfit.size List.mem_cons_self
  obtain ⟨size, hpos, hsize⟩ : ∃ n : Nat, 0 < n ∧ params.integer "dim" = .ok (n : Int) :=
    hfit.size (List.mem_cons_of_mem _ List.mem_cons_self)
  have hwanted : 0 < (wanted : Int) := by omega
  obtain ⟨count, hcount, hpositive, hdvd⟩ := heads_eq_ok (size : Int) hwanted
  exact ⟨wanted, size, count, hheads, hsize, hpos, hcount, hpositive, heads_mul_width hpositive hdvd⟩

/-! ## Weights -/

/-- A weight that takes the features of sequences to vectors of a size. -/
def Takes (w : Tensor α) (shape : TensorShape) (size : Nat) : Prop :=
  ∃ sequence, shape.sequenceSize kind = .ok sequence ∧ w.dims = [size, sequence.features]

theorem buildStream_eq_ok {size : Int} {name : String} {shape : TensorShape}
    {weights : List (Weight α)} {g g' : Generator}
    (h : (buildStream size (name, shape)).run g = (.ok weights, g')) :
    ∃ w b, weights = [w, b] ∧ w.name = "w_" ++ name ∧ b.name = "b_" ++ name ∧
      Takes w.tensor shape size.toNat ∧ b.tensor.dims = [size.toNat] := by
  rw [buildStream] at h
  obtain ⟨sequence, g₁, hsequence, h⟩ := run_bind_eq_ok.mp h
  obtain ⟨w, g₂, hw, h⟩ := run_bind_eq_ok.mp h
  obtain ⟨b, g₃, hb, h⟩ := run_bind_eq_ok.mp h
  obtain ⟨rfl, -⟩ := run_pure_eq_ok.mp h
  obtain ⟨hwname, hwdims⟩ := drawnWeight_eq_ok hw
  obtain ⟨hbname, hbdims⟩ := constantWeight_eq_ok (run_lift_eq_ok.mp hb).1
  exact ⟨w, b, rfl, hwname, hbname, ⟨sequence, (run_lift_eq_ok.mp hsequence).1, hwdims⟩, hbdims⟩

/-- The weights of the three streams and of the result. -/
theorem build_eq_ok {params : Entries} {shapes : List TensorShape} {size : Int}
    {weights : List (Weight α)} {q k v : TensorShape} {g g' : Generator}
    (hsize : params.integer "dim" = .ok size) (hstreams : streams shapes = .ok [q, k, v])
    (h : (build params shapes).run g = (.ok weights, g')) :
    ∃ wq bq wk bk wv bv wo bo, weights = [wq, bq, wk, bk, wv, bv, wo, bo] ∧
      weights.map Weight.name = ["w_q", "b_q", "w_k", "b_k", "w_v", "b_v", "w_o", "b_o"] ∧
      (Takes wq.tensor q size.toNat ∧ Takes wk.tensor k size.toNat ∧ Takes wv.tensor v size.toNat) ∧
      wo.tensor.dims = [size.toNat, size.toNat] ∧
      ∀ b ∈ [bq, bk, bv, bo], b.tensor.dims = [size.toNat] := by
  rw [build, run_lift_bind_ok hsize, run_lift_bind_ok hstreams] at h
  obtain ⟨inner, g₁, hinner, h⟩ := run_bind_eq_ok.mp h
  obtain ⟨wo, g₂, hwo, h⟩ := run_bind_eq_ok.mp h
  obtain ⟨bo, g₃, hbo, h⟩ := run_bind_eq_ok.mp h
  obtain ⟨rfl, -⟩ := run_pure_eq_ok.mp h
  simp only [streamNames, List.zip_cons_cons, List.zip_nil_right, List.mapM_cons, List.mapM_nil]
    at hinner
  obtain ⟨ofQueries, _, hq, hinner⟩ := run_bind_eq_ok.mp hinner
  obtain ⟨others, _, hothers, hinner⟩ := run_bind_eq_ok.mp hinner
  obtain ⟨rfl, -⟩ := run_pure_eq_ok.mp hinner
  obtain ⟨ofKeys, _, hk, hothers⟩ := run_bind_eq_ok.mp hothers
  obtain ⟨last, _, hlast, hothers⟩ := run_bind_eq_ok.mp hothers
  obtain ⟨rfl, -⟩ := run_pure_eq_ok.mp hothers
  obtain ⟨ofValues, _, hv, hlast⟩ := run_bind_eq_ok.mp hlast
  obtain ⟨none, _, hnone, hlast⟩ := run_bind_eq_ok.mp hlast
  obtain ⟨rfl, -⟩ := run_pure_eq_ok.mp hlast
  obtain ⟨rfl, -⟩ := run_pure_eq_ok.mp hnone
  obtain ⟨wq, bq, rfl, hwq, hbq, htakesq, hdimsq⟩ := buildStream_eq_ok hq
  obtain ⟨wk, bk, rfl, hwk, hbk, htakesk, hdimsk⟩ := buildStream_eq_ok hk
  obtain ⟨wv, bv, rfl, hwv, hbv, htakesv, hdimsv⟩ := buildStream_eq_ok hv
  obtain ⟨hwo, hodims⟩ := drawnWeight_eq_ok hwo
  obtain ⟨hbo, hbodims⟩ := constantWeight_eq_ok (run_lift_eq_ok.mp hbo).1
  refine ⟨wq, bq, wk, bk, wv, bv, wo, bo, rfl, ?_, ⟨htakesq, htakesk, htakesv⟩, hodims, ?_⟩
  · simp [hwq, hbq, hwk, hbk, hwv, hbv, hwo, hbo]
  · simp only [List.forall_mem_cons]
    exact ⟨hdimsq, hdimsk, hdimsv, hbodims, by simp⟩

/-- What a layer finds under the names of its weights. -/
theorem weights_eq_ok {layer : Layer α} {shapes : List TensorShape} {size : Int}
    {q k v : TensorShape} {g g' : Generator} (hsize : layer.params.integer "dim" = .ok size)
    (hstreams : streams shapes = .ok [q, k, v])
    (h : (build layer.params shapes).run g = (.ok layer.weights, g')) :
    (∀ stream ∈ streamNames.zip [q, k, v],
        (∃ w, layer.weight ("w_" ++ stream.1) = .ok w ∧ Takes w stream.2 size.toNat) ∧
          ∃ b, layer.weight ("b_" ++ stream.1) = .ok b ∧ b.dims = [size.toNat]) ∧
      (∃ w, layer.weight "w_o" = .ok w ∧ w.dims = [size.toNat, size.toNat]) ∧
      ∃ b, layer.weight "b_o" = .ok b ∧ b.dims = [size.toNat] := by
  obtain ⟨wq, bq, wk, bk, wv, bv, wo, bo, hweights, hnames, ⟨tq, tk, tv⟩, hodims, hbiases⟩ :=
    build_eq_ok hsize hstreams h
  simp only [List.forall_mem_cons] at hbiases
  obtain ⟨dq, dk, dv, dbo, -⟩ := hbiases
  have hnodup : (layer.weights.map Weight.name).Nodup := by
    rw [hnames]
    decide
  have hfind : ∀ w ∈ layer.weights, layer.weight w.name = .ok w.tensor :=
    fun w hw => Layer.weight_of_mem hnodup hw
  rw [hweights] at hnames hfind
  simp only [List.map_cons, List.map_nil, List.cons.injEq, and_true] at hnames
  obtain ⟨hwq, hbq, hwk, hbk, hwv, hbv, hwo, hbo⟩ := hnames
  simp only [List.forall_mem_cons, hwq, hbq, hwk, hbk, hwv, hbv, hwo, hbo] at hfind
  obtain ⟨fq, fbq, fk, fbk, fv, fbv, fo, fbo, -⟩ := hfind
  refine ⟨?_, ⟨wo.tensor, fo, hodims⟩, bo.tensor, fbo, dbo⟩
  simp only [streamNames, List.zip_cons_cons, List.zip_nil_right, List.forall_mem_cons]
  exact ⟨⟨⟨wq.tensor, fq, tq⟩, bq.tensor, fbq, dq⟩, ⟨⟨wk.tensor, fk, tk⟩, bk.tensor, fbk, dk⟩,
    ⟨⟨wv.tensor, fv, tv⟩, bv.tensor, fbv, dv⟩, by simp⟩

/-! ## Projections -/

/-- A batch of sequences after its affine map. -/
theorem project_eq_ok {layer : Layer α} {name : String} {w b : Tensor α} {size : Nat}
    (hw : layer.weight ("w_" ++ name) = .ok w) (hb : layer.weight ("b_" ++ name) = .ok b)
    {shape : TensorShape} (htakes : Takes w shape size) {sizes : List Nat}
    (hshape : shape.Settled sizes) {n : Nat} (hn : 0 < n) {x : Signal α}
    (hx : x.dims = n :: sizes) :
    ∃ y, project layer name x shape = .ok y ∧ y.dims = [n, volume sizes.dropLast, size] := by
  obtain ⟨t, ht, hdims⟩ := reshape_sequences hshape.nonempty hshape.positive hn hx
  refine ⟨affine t (t.dims.dropLast ++ [w.dims.getD 0 0]) w b, ?_, ?_⟩
  · simp only [project, sequences, hshape.sequenceSize, Signal.batch_eq_ok hx, ht, hw, hb, ok_bind]
  · obtain ⟨sequence, -, hwdims⟩ := htakes
    rw [affine, Affine.apply, Tensor.dims_ofRows, hdims, hwdims]
    rfl

/-! ## Shares that are dropped -/

theorem maskOf_eq_ok {rate : α} (h : Allowed rate) (e : Extent) (streamed : Bool)
    (start : Generator) : ∃ mask, maskOf e rate streamed start = .ok mask := by
  rw [maskOf]
  split
  · exact ⟨_, rfl⟩
  · rename_i hzero
    rw [if_pos (h.resolve_left hzero)]
    split
    · exact ⟨_, rfl⟩
    · split
      · exact ⟨_, rfl⟩
      · exact ⟨_, rfl⟩

theorem maskOf_eq_error {rate : α} (h : ¬Allowed rate) (e : Extent) (streamed : Bool)
    (start : Generator) : maskOf e rate streamed start = mishap .badTensor := by
  rw [Allowed, not_or] at h
  rw [maskOf, if_neg h.1, if_neg h.2]

variable (α) in
/-- With fitting settings there is a rate. It is zero unless a model is being trained. -/
theorem rateOf_eq_ok {params : Entries} {rate : Float}
    (h : params.get? "dropout" = some (.real rate)) (training : Bool) :
    rateOf params training = .ok (if training then Scalar.ofFloat rate else 0 : α) := by
  cases training with
  | true =>
      rw [rateOf, h]
      rfl
  | false => rfl

/-! ## The pass -/

theorem outputShape_eq_ok {params : Entries} {shapes : List TensorShape} {q k v s : TensorShape}
    {sizes : List Nat} {size : Nat} (hsize : params.integer "dim" = .ok (size : Int))
    (hpos : 0 < size) (hq : q.Settled sizes) (hstreams : streams shapes = .ok [q, k, v])
    (hout : outputShape params shapes = .ok s) : s.Settled [volume sizes.dropLast, size] := by
  have hfirst : firstOf shapes = .ok q := by
    rcases shapes with _ | ⟨first, _ | ⟨second, _ | ⟨third, rest⟩⟩⟩ <;> cases hstreams <;> rfl
  have hsteps : 0 < volume sizes.dropLast :=
    volume_pos fun n hn => hq.positive n ((List.dropLast_sublist sizes).subset hn)
  obtain ⟨s', hs', hsettled⟩ := TensorShape.ofSample_settled
    (List.cons_ne_nil (volume sizes.dropLast) [size]) (by simp [hsteps, hpos])
  rw [outputShape, hfirst, ok_bind, hq.sequenceSize kind, ok_bind, hsize, ok_bind] at hout
  rwa [← Except.ok.inj (hs'.symm.trans hout)]

/-- Queries, keys and values after their affine maps. -/
theorem projected_eq_ok {layer : Layer α} {size : Nat}
    {sq sk sv : TensorShape} (hweights : ∀ stream ∈ streamNames.zip [sq, sk, sv],
      (∃ w, layer.weight ("w_" ++ stream.1) = .ok w ∧ Takes w stream.2 size) ∧
        ∃ b, layer.weight ("b_" ++ stream.1) = .ok b ∧ b.dims = [size])
    {nq nk nv : List Nat} (hq : sq.Settled nq) (hk : sk.Settled nk)
    (hv : sv.Settled nv) {b : Nat} (hb : 0 < b) {xq xk xv : Signal α} (hxq : xq.dims = b :: nq)
    (hxk : xk.dims = b :: nk) (hxv : xv.dims = b :: nv) :
    ∃ q k v, (streamNames.zip ([xq, xk, xv].zip [sq, sk, sv])).mapM
        (fun p => project layer p.1 p.2.1 p.2.2) = .ok [q, k, v] ∧
      q.dims = [b, volume nq.dropLast, size] ∧ k.dims = [b, volume nk.dropLast, size] ∧
      v.dims = [b, volume nv.dropLast, size] := by
  simp only [streamNames, List.zip_cons_cons, List.zip_nil_right, List.forall_mem_cons] at hweights
  obtain ⟨⟨⟨wq, hwq, hdq⟩, bq, hbq, -⟩, ⟨⟨wk, hwk, hdk⟩, bk, hbk, -⟩,
    ⟨⟨wv, hwv, hdv⟩, bv, hbv, -⟩, -⟩ := hweights
  obtain ⟨q, hqueries, hqdims⟩ := project_eq_ok hwq hbq hdq hq hb hxq
  obtain ⟨k, hkeys, hkdims⟩ := project_eq_ok hwk hbk hdk hk hb hxk
  obtain ⟨v, hvalues, hvdims⟩ := project_eq_ok hwv hbv hdv hv hb hxv
  refine ⟨q, k, v, ?_, hqdims, hkdims, hvdims⟩
  simp only [streamNames, List.zip_cons_cons, List.zip_nil_right, List.mapM_cons, hqueries,
    hkeys, hvalues, ok_bind]
  rfl

omit [Scalar α] in
/-- A mask decides on the result, which needs no more than the last two weights. -/
theorem masked_run {layer : Layer α} {wo bo : Tensor α} (hwo : layer.weight "w_o" = .ok wo)
    (hbo : layer.weight "b_o" = .ok bo) (mask : Outcome (Mask α))
    (f : Mask α → Tensor α → Tensor α → Tensor α) (g : Generator) :
    (liftM mask >>= fun mask => do
        let w ← liftM (layer.weight "w_o")
        let b ← liftM (layer.weight "b_o")
        pure (f mask w b) : Draws (Tensor α)).run g = (mask.map fun mask => f mask wo bo, g) := by
  cases mask with
  | error fault => rfl
  | ok mask =>
      rw [run_lift_bind_ok rfl, run_lift_bind_ok hwo, run_lift_bind_ok hbo]
      rfl

/-- Attention over batches: all that can still go wrong is the mask. -/
theorem forward_run {layer : Layer α} {sizes : List (List Nat)} {g₀ g₁ : Generator}
    (hfit : layer.params.Fit Kernel.attention.settings)
    (hshapes : Forall₂ TensorShape.Settled layer.inputShapes sizes) (hne : sizes ≠ [])
    (hsteps : ∀ q k v, streams sizes = .ok [q, k, v] → volume k.dropLast = volume v.dropLast)
    (hout : outputShape layer.params layer.inputShapes = .ok layer.outputShape)
    (hbuild : (build layer.params layer.inputShapes).run g₀ = (.ok layer.weights, g₁)) :
    ∃ result, layer.outputShape.Settled result ∧
      ∀ (b : Nat) (signals : List (Signal α)) (mode : PassMode) (rate : α) (g : Generator),
        0 < b → Batches b signals sizes → rateOf layer.params mode.training = .ok rate →
        ∃ (e : Extent) (f : Mask α → Tensor α), (∀ mask, (f mask).dims = b :: result) ∧
          (forward layer signals mode).run g = ((maskOf e rate mode.streamed g).map f,
            if isThinned rate && mode.streamed then g.skip 1 else g) := by
  obtain ⟨wanted, size, count, hheads, hsize, hpos, hcount, hpositive, hwide⟩ := settings_eq_ok hfit
  obtain ⟨sq, sk, sv, nq, nk, nv, hstreams, hsizes, hq, hk, hv⟩ := streams_forall₂ hshapes hne
  obtain ⟨hweights, ⟨wo, hwo, -⟩, bo, hbo, -⟩ := weights_eq_ok hsize hstreams hbuild
  refine ⟨[volume nq.dropLast, size], outputShape_eq_ok hsize hpos hq hstreams hout, ?_⟩
  intro b signals mode rate g hb hsignals hrate
  obtain ⟨xq, xk, xv, nq', nk', nv', hinputs, hsizes', hxq, hxk, hxv⟩ :=
    streams_forall₂ hsignals hne
  obtain ⟨rfl, rfl, rfl⟩ : nq = nq' ∧ nk = nk' ∧ nv = nv' := by
    simpa using Except.ok.inj (hsizes.symm.trans hsizes')
  obtain ⟨q, k, v, hprojected, hqdims, hkdims, hvdims⟩ :=
    projected_eq_ok hweights hq hk hv hb hxq hxk hxv
  let e : Extent := ⟨b, volume nq.dropLast, volume nk.dropLast, count.toNat,
    ((size : Int) / count).toNat⟩
  have hextent : extentOf q k v count.toNat ((size : Int) / count).toNat = .ok e := by
    simp [extentOf, hqdims, hkdims, hvdims, e, hsteps nq nk nv hsizes]
  have hwide : e.size = size := hwide
  let f := fun (mask : Mask α) (w b : Tensor α) =>
    affine (weighed e mask (e.allShares q k) v) [e.batch, e.queries, e.size] w b
  refine ⟨e, fun mask => f mask wo bo, ?_, ?_⟩
  · intro mask
    simp only [f, affine, Affine.apply, Tensor.dims_ofRows, hwide]
    rfl
  · have hsign : ¬count < 0 := by omega
    rw [forward, run_lift_bind_ok hsize, run_lift_bind_ok hheads, run_lift_bind_ok hcount,
      run_lift_bind_ok hstreams, run_lift_bind_ok hinputs,
      run_bind_ok (run_mapM_lift hprojected)]
    simp only [hsign, if_false]
    rw [run_lift_bind_ok hrate, run_lift_bind_ok hextent, run_get_bind]
    -- the draw for the seed comes before the mask, which reads the stream as it was
    split
    · exact run_set_bind.trans (masked_run hwo hbo _ f _)
    · exact masked_run hwo hbo _ f _

end BlockNet.Attention
