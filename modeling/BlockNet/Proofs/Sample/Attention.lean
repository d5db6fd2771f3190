import BlockNet.Proofs.Sample.Joined
import BlockNet.Proofs.Layer.Attention

/-! # Attention looks at one sample at a time

Queries of a sample weigh the values of the same sample only, unless shares are dropped. -/

namespace BlockNet.Attention

open List

variable {α : Type} [Scalar α] {b i : Nat} (hi : i < b)

include hi

/-! ## Affine maps -/

theorem affine_alone {t u w : Tensor α} {front : List Nat} {inputs outputs : Nat}
    (h : t.Alone b i (front ++ [inputs]) u) (hw : w.dims = [outputs, inputs]) (bias : Tensor α) :
    (affine t (b :: (front ++ [outputs])) w bias).Alone b i (front ++ [outputs])
      (affine u (1 :: (front ++ [outputs])) w bias) := by
  rw [affine, affine, hw]
  exact Affine.apply_alone hi h (Tensor.volume_concat front inputs)
    (Tensor.volume_concat front outputs) _ _

theorem project_alone {layer : Layer α} {name : String} {w : Tensor α} {shape : TensorShape}
    {size : Nat} (hw : layer.weight ("w_" ++ name) = .ok w) (htakes : Takes w shape size)
    {x y : Signal α} {s : List Nat} (h : x.Alone b i s y) :
    Both (fun t u => ∃ steps, t.Alone b i [steps, size] u) (project layer name x shape)
      (project layer name y shape) := by
  obtain ⟨sequence, hsequence, hdims⟩ := htakes
  rw [project, project, sequences, sequences, hsequence, ok_bind, h.batch.1, h.batch.2, hw]
  refine (h.toReal.reshape _).bind fun t u htu => ?_
  rw [ok_bind, ok_bind]
  refine .same_bind fun bias _ => .ok ⟨sequence.steps, ?_⟩
  have hrows : t.Alone b i ([sequence.steps] ++ [sequence.features]) u := htu
  rw [htu.dims, htu.lone, hdims]
  exact affine_alone hi hrows hdims bias

/-! ## Shares -/

namespace Extent

/-- The sizes for a single one of the sequences. -/
def lone (e : Extent) : Extent := { e with batch := 1 }

variable {e : Extent}

omit [Scalar α] in
theorem place_eq {t : Tensor α} {s : List Nat} {steps : Nat} (ht : t.dims = b :: steps :: s)
    (step head : Nat) : e.place t i step head = (i * steps + step) * e.size + head * e.width := by
  have hsample : (if (b :: steps :: s).headD 0 = 1 then 0 else i) = i := by
    rw [List.headD_cons]
    split
    · omega
    · rfl
  rw [place, ht, hsample]
  rfl

theorem place_alone {t u : Tensor α} {steps step head n : Nat} (h : t.Alone b i [steps, e.size] u)
    (hstep : step < steps) (hhead : head < e.heads) (hn : n < e.width) :
    u.entry (e.lone.place u 0 step head + n) = t.entry (e.place t i step head + n) := by
  have hvolume : volume [steps, e.size] = steps * e.size := by simp
  rw [place_eq hi h.dims, place_eq Nat.one_pos h.lone, Nat.add_assoc, Nat.add_assoc, Nat.zero_mul,
    Nat.zero_add]
  exact h.rowEntry hvolume hstep (Tensor.place_lt hhead hn)

omit [Scalar α] in
/-- The places of later steps, counted from the first one. -/
theorem place_add {t : Tensor α} {s : List Nat} {steps : Nat} (ht : t.dims = b :: steps :: s)
    (head n u : Nat) : e.place t i 0 head + n + u * e.size = e.place t i u head + n := by
  rw [place_eq hi ht, place_eq hi ht]
  ring

omit [Scalar α] hi in
/-- The digits of a row of shares. -/
theorem rowOf_digits {head step : Nat} (hhead : head < e.heads) (hstep : step < e.queries)
    (b : Nat) : e.rowOf b head step % e.queries = step ∧
      e.rowOf b head step / e.queries % e.heads = head ∧
      e.rowOf b head step / e.queries / e.heads = b := by
  rw [rowOf, Tensor.mod_place hstep, Tensor.div_place hstep, Tensor.mod_place hhead,
    Tensor.div_place hhead]
  exact ⟨rfl, rfl, rfl⟩

variable {q k q' k' : Tensor α} (hq : q.Alone b i [e.queries, e.size] q')
  (hk : k.Alone b i [e.keys, e.size] k') {head step : Nat} (hhead : head < e.heads)
  (hstep : step < e.queries)

include hq hk hhead hstep

/-- A query shares itself out among the keys of its own sequence. -/
theorem sharesOf_alone : e.lone.sharesOf q' k' (e.lone.rowOf 0 head step) =
    e.sharesOf q k (e.rowOf i head step) := by
  obtain ⟨hqueries, hheads, hsequence⟩ := rowOf_digits hhead hstep i
  obtain ⟨hqueries', hheads', hsequence'⟩ := rowOf_digits (e := e.lone) hhead hstep 0
  rw [sharesOf, sharesOf, hqueries, hheads, hsequence, hqueries', hheads', hsequence']
  refine Activation.shares_congr fun u hu => congrArg (· / _) (Scalar.sum_congr fun n hn => ?_)
  rw [place_alone hi hq hstep hhead hn, place_alone hi hk hu hhead hn]

theorem allShares_alone (hb : e.batch = b) :
    (e.lone.allShares q' k').getD (e.lone.rowOf 0 head step) #[] =
      (e.allShares q k).getD (e.rowOf i head step) #[] := by
  have hrow : e.rowOf i head step < e.batch * e.heads * e.queries :=
    Tensor.place_lt (Tensor.place_lt (hb ▸ hi) hhead) hstep
  have hlone : e.lone.rowOf 0 head step < e.lone.batch * e.lone.heads * e.lone.queries :=
    Tensor.place_lt (Tensor.place_lt Nat.one_pos hhead) hstep
  rw [allShares, allShares, Tensor.getD_ofFn hrow, Tensor.getD_ofFn hlone,
    sharesOf_alone hi hq hk hhead hstep]

end Extent

/-! ## Values -/

section

variable {e : Extent} {q k v q' k' v' : Tensor α} (hb : e.batch = b)
  (hq : q.Alone b i [e.queries, e.size] q') (hk : k.Alone b i [e.keys, e.size] k')
  (hv : v.Alone b i [e.keys, e.size] v')

include hb hq hk hv

theorem weighed_alone :
    (weighed e .whole (e.allShares q k) v).Alone b i [e.queries, e.size]
      (weighed e.lone .whole (e.lone.allShares q' k') v') := by
  have hvolume : volume [e.queries, e.size] = e.queries * e.size := by simp
  rw [weighed, weighed, hb]
  refine .ofFn hi fun n hn => ?_
  rw [hvolume] at hn ⊢
  obtain ⟨hrow, hfeature, hstep⟩ := Tensor.split_place (i := i) hn
  have hfeatures : n % e.size < e.heads * e.width :=
    Nat.mod_lt n (Nat.pos_of_mul_pos_left (Nat.zero_lt_of_lt hn))
  have hhead : n % e.size / e.width < e.heads := Nat.div_lt_of_lt_mul (Nat.mul_comm .. ▸ hfeatures)
  have hplace : n % e.size % e.width < e.width :=
    Nat.mod_lt _ (Nat.pos_of_mul_pos_left (Nat.zero_lt_of_lt hfeatures))
  have hlone : e.lone.size = e.size := rfl
  have hloneq : e.lone.queries = e.queries := rfl
  have hlonew : e.lone.width = e.width := rfl
  simp only [hlone, hloneq, hlonew, hrow, hfeature, Tensor.div_place hstep,
    Tensor.mod_place hstep, Nat.div_eq_of_lt hstep, Nat.mod_eq_of_lt hstep]
  rw [Extent.allShares_alone hi hq hk hhead hstep hb]
  refine Scalar.sum_congr fun u hu => congrArg₂ (· * ·) rfl ?_
  rw [Extent.place_add hi hv.dims, ← Extent.place_alone hi hv hu hhead hplace]
  exact congrArg v'.entry (Extent.place_add Nat.one_pos hv.lone _ _ u)

/-- Without a rate nothing is dropped, whatever the streams. -/
theorem masked_alone (hzero : Scalar.same (0 : α) 0 = true) {layer : Layer α} {wo : Tensor α}
    (hwo : layer.weight "w_o" = .ok wo) (hodims : wo.dims = [e.size, e.size]) (streamed : Bool)
    (start start' : Generator) :
    Agree (fun t u => ∃ s, t.Alone b i s u)
      (do
        let mask ← (maskOf e 0 streamed start : Outcome (Mask α))
        let w ← layer.weight "w_o"
        let bias ← layer.weight "b_o"
        return affine (weighed e mask (e.allShares q k) v) [e.batch, e.queries, e.size] w bias)
      (do
        let mask ← (maskOf e.lone 0 streamed start' : Outcome (Mask α))
        let w ← layer.weight "w_o"
        let bias ← layer.weight "b_o"
        return affine (weighed e.lone mask (e.lone.allShares q' k') v')
          [e.lone.batch, e.lone.queries, e.lone.size] w bias) := by
  have hmask : ∀ (e : Extent) start, maskOf e (0 : α) streamed start = .ok .whole :=
    fun e start => if_pos hzero
  simp only [hmask, hb, hwo, lift_ok_bind]
  refine .same_bind fun bias _ => .pure ?_
  have hcontext : (weighed e .whole (e.allShares q k) v).Alone b i ([e.queries] ++ [e.size])
      (weighed e.lone .whole (e.lone.allShares q' k') v') := weighed_alone hi hb hq hk hv
  exact ⟨_, affine_alone hi hcontext hodims bias⟩

end

/-! ## The pass -/

omit [Scalar α] hi in
theorem extentOf_alone {q k v q' k' v' : Tensor α} {queries keys values size : Nat}
    (hq : q.Alone b i [queries, size] q') (hk : k.Alone b i [keys, size] k')
    (hv : v.Alone b i [values, size] v') (heads width : Nat) :
    Both (fun e e' => e = ⟨b, queries, keys, heads, width⟩ ∧ e' = e.lone ∧ keys = values)
      (extentOf q k v heads width) (extentOf q' k' v' heads width) := by
  simp only [extentOf, hq.dims, hk.dims, hv.dims, hq.lone, hk.lone, hv.lone, List.headD_cons,
    List.getD_cons_succ, List.getD_cons_zero, true_or, true_and]
  split
  · exact .ok ⟨rfl, rfl, ‹_›⟩
  · exact .left _ _

omit [Scalar α] hi in
theorem streams_alone {sizes : List (List Nat)} {xs ys : List (Signal α)}
    (h : Samples b i sizes xs ys) :
    Both (fun ps qs => ∃ xq xk xv yq yk yv sq sk sv, ps = [xq, xk, xv] ∧ qs = [yq, yk, yv] ∧
        Signal.Alone b i sq xq yq ∧ Signal.Alone b i sk xk yk ∧ Signal.Alone b i sv xv yv)
      (streams xs) (streams ys) := by
  cases h with
  | nil => exact .left _ _
  | cons hq h =>
      cases h with
      | nil => exact .ok ⟨_, _, _, _, _, _, _, _, _, rfl, rfl, hq, hq, hq⟩
      | cons hk h =>
          cases h with
          | nil => exact .ok ⟨_, _, _, _, _, _, _, _, _, rfl, rfl, hq, hk, hk⟩
          | cons hv h => exact .ok ⟨_, _, _, _, _, _, _, _, _, rfl, rfl, hq, hk, hv⟩

theorem forward_alone (hzero : Scalar.same (0 : α) 0 = true) {layer : Layer α}
    {sizes : List (List Nat)} {g₀ g₁ : Generator}
    (hfit : layer.params.Fit Kernel.attention.settings)
    (hshapes : Forall₂ TensorShape.Settled layer.inputShapes sizes) (hne : sizes ≠ [])
    (hbuild : (build layer.params layer.inputShapes).run g₀ = (.ok layer.weights, g₁))
    {xs ys : List (Signal α)} (h : Samples b i sizes xs ys) {mode : PassMode}
    (hmode : mode.training = false) :
    Agree (fun t u => ∃ s, t.Alone b i s u) (forward layer xs mode) (forward layer ys mode) := by
  obtain ⟨wanted, size, count, hheads, hsize, -, hcount, hpositive, hwide⟩ := settings_eq_ok hfit
  obtain ⟨sq, sk, sv, nq, nk, nv, hstreams, -, -, -, -⟩ := streams_forall₂ hshapes hne
  obtain ⟨hweights, ⟨wo, hwo, hodims⟩, -⟩ := weights_eq_ok hsize hstreams hbuild
  simp only [streamNames, List.zip_cons_cons, List.zip_nil_right, List.forall_mem_cons] at hweights
  obtain ⟨⟨⟨wq, hwq, htakesq⟩, -⟩, ⟨⟨wk, hwk, htakesk⟩, -⟩, ⟨⟨wv, hwv, htakesv⟩, -⟩, -⟩ := hweights
  simp only [forward, hsize, hheads, hcount, hstreams, lift_ok_bind]
  refine (Agree.lift (streams_alone h)).bind ?_
  rintro _ _ ⟨xq, xk, xv, yq, yk, yv, _, _, _, rfl, rfl, hxq, hxk, hxv⟩
  simp only [streamNames, List.zip_cons_cons, List.zip_nil_right, List.mapM_cons, List.mapM_nil,
    bind_assoc, pure_bind]
  refine (Agree.lift (project_alone hi hwq htakesq hxq)).bind ?_
  rintro q q' ⟨queries, hq⟩
  refine (Agree.lift (project_alone hi hwk htakesk hxk)).bind ?_
  rintro k k' ⟨keys, hk⟩
  refine (Agree.lift (project_alone hi hwv htakesv hxv)).bind ?_
  rintro v v' ⟨values, hv⟩
  have hsign : ¬count < 0 := by omega
  have hrate : rateOf layer.params false = .ok (0 : α) := rfl
  rw [if_neg hsign, if_neg hsign, hmode, hrate, lift_ok_bind, lift_ok_bind]
  refine (Agree.lift (extentOf_alone hq hk hv _ _)).bind ?_
  rintro e _ ⟨he, rfl, rfl⟩
  have hwide : (size : Int).toNat = e.size := by
    rw [he, Extent.size, hwide, Int.toNat_natCast]
  have hb : e.batch = b := congrArg Extent.batch he
  obtain rfl : e.queries = queries := congrArg Extent.queries he
  obtain rfl : e.keys = keys := congrArg Extent.keys he
  rw [hwide] at hq hk hv hodims
  -- where nothing is dropped the streams of the two passes decide nothing
  have hmasked := fun start start' =>
    masked_alone hi hb hq hk hv hzero hwo hodims mode.streamed start start'
  refine Agree.bind (R := fun _ _ => True) (fun _ _ => .ok trivial) fun start start' _ => ?_
  split
  · exact Agree.bind (R := fun _ _ => True) (fun _ _ => .ok trivial) fun _ _ _ =>
      hmasked start start'
  · exact hmasked start start'

end BlockNet.Attention
