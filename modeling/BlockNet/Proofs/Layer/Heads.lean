import BlockNet.Proofs.Compilation.Built
import BlockNet.Proofs.Layer.Entries
import BlockNet.Proofs.Layer.Steady
import BlockNet.Proofs.Sample.Attention

/-! # Attention as sums

Queries, keys and values are affine maps of the steps of up to three sequences. The features are
shared out among as many heads as the greatest common divisor of their number and of the heads wanted.
In every head a query takes the mean of the values, weighed by its shares in the keys; the heads side
by side go through one more affine map. -/

namespace BlockNet.Attention

variable {α : Type} [Scalar α]

/-! ## What a layer is made of -/

/-- The affine map of a stream: from the features of its sequences to features of a number `size`. -/
structure Stream (layer : Layer α) (name : String) (shape : TensorShape) (size : Nat) where
  sequence : SequenceSize
  weight : Tensor α
  bias : Tensor α
  sequence_eq : shape.sequenceSize kind = .ok sequence
  weight_eq : layer.weight ("w_" ++ name) = .ok weight
  bias_eq : layer.weight ("b_" ++ name) = .ok bias
  weight_dims : weight.dims = [size, sequence.features]
  bias_dims : bias.dims = [size]

/-- The streams of a layer, the number of its features, the number of heads that is wanted, and the
affine map of the result. A layer that is not fed with keys takes the shape of the queries for them,
and one without values that of the keys. -/
structure Parts (layer : Layer α) where
  size : Nat
  wanted : Nat
  shape : TensorShape
  shapes : List TensorShape
  query : Stream layer "q" shape size
  key : Stream layer "k" (shapes[0]?.getD shape) size
  value : Stream layer "v" (shapes[1]?.getD (shapes[0]?.getD shape)) size
  weight : Tensor α
  bias : Tensor α
  size_pos : 0 < size
  wanted_pos : 0 < wanted
  size_eq : layer.params.integer "dim" = .ok (size : Int)
  wanted_eq : layer.params.integer "heads" = .ok (wanted : Int)
  shapes_eq : layer.inputShapes = shape :: shapes
  weight_eq : layer.weight "w_o" = .ok weight
  bias_eq : layer.weight "b_o" = .ok bias
  weight_dims : weight.dims = [size, size]
  bias_dims : bias.dims = [size]

namespace Stream

variable {layer : Layer α} {name : String} {shape : TensorShape} {size : Nat}
  (s : Stream layer name shape size)

/-- The axes that a sample of the stream is read under. -/
def axes : List Nat := [s.sequence.steps, s.sequence.features]

/-- A feature of a step after the affine map. -/
def feature (batch : Nat) (x : Tensor α) (b t j : Nat) : α :=
  Scalar.sum s.sequence.features (fun k =>
    x.under (batch :: s.axes) [b, t, k] * s.weight.under [size, s.sequence.features] [j, k]) +
    s.bias.under [size] [j]

/-- A tensor that holds the features of a batch after the affine map. -/
structure Mapped (batch : Nat) (x y : Tensor α) : Prop where
  dims : y.dims = [batch, s.sequence.steps, size]
  entry : ∀ b < batch, ∀ t < s.sequence.steps, ∀ j < size,
    y.entry ((b * s.sequence.steps + t) * size + j) = s.feature batch x b t j

/-- A batch of the stream goes through its affine map. -/
theorem project_eq {batch : Nat} {x : Signal α} (hx : x.ReadsAs batch s.axes) :
    ∃ y, project layer name x shape = .ok y ∧ s.Mapped batch x.toReal y := by
  obtain ⟨r, hr, hrdims, hrentries⟩ := hx.reshape_eq
  have hread := Tensor.entry_congr hrentries
  refine ⟨affine r [batch, s.sequence.steps, size] s.weight s.bias, ?_, rfl, ?_⟩
  · rw [axes] at hr
    simp only [project, sequences, s.sequence_eq, hx.batch_eq, hr, s.weight_eq,
      s.bias_eq, ok_bind]
    rw [hrdims, s.weight_dims]
    rfl
  · intro b hb t ht j hj
    have hrows : volume [batch, s.sequence.steps, size] = batch * s.sequence.steps * size := by
      simp [Nat.mul_assoc]
    rw [affine, s.weight_dims]
    simp only [List.getD_cons_succ, List.getD_cons_zero]
    rw [Affine.entry_apply hrows _ _ (Tensor.place_lt hb ht) hj, feature]
    simp only [hread, Tensor.under, axes, Tensor.position_triple, Tensor.position_pair,
      Tensor.position_single]

/-- The features of a head stand side by side. -/
theorem Mapped.entry_place {s : Stream layer name shape size} {batch : Nat} {x y : Tensor α}
    (h : s.Mapped batch x y) {e : Extent} (he : e.size = size) {b t head i : Nat} (hb : b < batch)
    (ht : t < s.sequence.steps) (hhead : head < e.heads) (hi : i < e.width) :
    y.entry (e.place y b t head + i) = s.feature batch x b t (head * e.width + i) := by
  have hj : head * e.width + i < size := he ▸ Tensor.place_lt hhead hi
  rw [Extent.place_eq hb h.dims, he, Nat.add_assoc, h.entry b hb t ht _ hj]

end Stream

/-! ## Heads -/

/-- The number of heads is the wanted one as far as it divides the number of features. -/
theorem heads_eq_gcd (size : Nat) {wanted : Nat} (hwanted : 0 < wanted) :
    heads size wanted = .ok (Nat.gcd size wanted : Int) := by
  have hne : ¬(wanted : Int) = 0 := by omega
  rw [heads, if_neg hne]
  split
  · rename_i hmod
    have hdvd : wanted ∣ size := Int.natCast_dvd_natCast.mp (Int.dvd_of_emod_eq_zero hmod)
    rw [Nat.gcd_eq_right hdvd]
  · rfl

namespace Parts

variable {layer : Layer α} (p : Parts layer)

/-- The number of heads. -/
def heads : Nat := Nat.gcd p.size p.wanted

/-- The number of features of a head. -/
def width : Nat := p.size / p.heads

omit [Scalar α] in
theorem heads_pos : 0 < p.heads := Nat.gcd_pos_of_pos_left _ p.size_pos

omit [Scalar α] in
theorem heads_mul_width : p.heads * p.width = p.size :=
  Nat.mul_div_cancel' (Nat.gcd_dvd_left ..)

omit [Scalar α] in
theorem width_pos : 0 < p.width := Nat.div_pos (Nat.gcd_le_left _ p.size_pos) p.heads_pos

variable (batch : Nat) (xq xk xv : Tensor α)

/-- The product of a query and a key in a head, scaled by the square root of its width. -/
def score (b head t u : Nat) : α :=
  Scalar.sum p.width (fun i => p.query.feature batch xq b t (head * p.width + i) *
    p.key.feature batch xk b u (head * p.width + i)) / Scalar.sqrt (Scalar.ofInt p.width)

/-- A feature of the mean of the values, weighed by the shares of a query in the keys of a head. -/
def mean (b head t i : Nat) : α :=
  Scalar.sum p.key.sequence.steps fun u =>
    Scalar.softmax p.key.sequence.steps (p.score batch xq xk b head t) u *
      p.value.feature batch xv b u (head * p.width + i)

/-- A feature of the result, which the heads side by side are mapped to. -/
def result (b t o : Nat) : α :=
  Scalar.sum p.size (fun j => p.mean batch xq xk xv b (j / p.width) t (j % p.width) *
    p.weight.under [p.size, p.size] [o, j]) + p.bias.under [p.size] [o]

/-- The sizes that the layer goes over. -/
def extent : Extent :=
  ⟨batch, p.query.sequence.steps, p.key.sequence.steps, p.heads, p.width⟩

omit [Scalar α] in
theorem extent_size : (p.extent batch).size = p.size := p.heads_mul_width

variable {batch xq xk xv} {q k v : Tensor α} (hq : p.query.Mapped batch xq q)
  (hk : p.key.Mapped batch xk k)

include hq hk

/-- The shares of a query of a head in its keys. -/
theorem allShares_eq {b head t : Nat} (hb : b < batch) (hhead : head < p.heads)
    (ht : t < p.query.sequence.steps) :
    ((p.extent batch).allShares q k).getD ((p.extent batch).rowOf b head t) #[] =
      Activation.shares p.key.sequence.steps (p.score batch xq xk b head t) := by
  have hrow : (p.extent batch).rowOf b head t < (p.extent batch).batch * (p.extent batch).heads *
      (p.extent batch).queries :=
    Tensor.place_lt (Tensor.place_lt hb hhead) ht
  obtain ⟨hquery, hheads, hsequence⟩ := Extent.rowOf_digits (e := p.extent batch) hhead ht b
  rw [Extent.allShares, Tensor.getD_ofFn hrow, Extent.sharesOf, hquery, hheads, hsequence]
  refine Activation.shares_congr fun u hu => congrArg (· / _) (Scalar.sum_congr fun i hi => ?_)
  rw [hq.entry_place (p.extent_size batch) hb ht hhead hi,
    hk.entry_place (p.extent_size batch) hb hu hhead hi]
  rfl

/-- The values weighed by the shares, the heads side by side. -/
theorem weighed_eq (hv : p.value.Mapped batch xv v)
    (hsteps : p.key.sequence.steps = p.value.sequence.steps) {b t j : Nat} (hb : b < batch)
    (ht : t < p.query.sequence.steps) (hj : j < p.size) :
    (weighed (p.extent batch) .whole ((p.extent batch).allShares q k) v).entry
        ((b * p.query.sequence.steps + t) * p.size + j) =
      p.mean batch xq xk xv b (j / p.width) t (j % p.width) := by
  have hplace : (b * p.query.sequence.steps + t) * p.size + j <
      volume [batch, p.query.sequence.steps, p.size] := by
    rw [← Tensor.position_triple batch]
    exact Tensor.position_lt (by simp [hb, ht, hj])
  have hhead : j / p.width < p.heads := by
    rw [← p.heads_mul_width] at hj
    exact Nat.div_lt_of_lt_mul (Nat.mul_comm p.heads p.width ▸ hj)
  have hi : j % p.width < p.width := Nat.mod_lt j p.width_pos
  have hqueries : (p.extent batch).queries = p.query.sequence.steps := rfl
  have hwidth : (p.extent batch).width = p.width := rfl
  rw [weighed, p.extent_size]
  refine (Tensor.entry_ofFn hplace).trans ?_
  simp only [Tensor.mod_place hj, Tensor.div_place hj, hqueries, hwidth, Tensor.mod_place ht,
    Tensor.div_place ht]
  rw [p.allShares_eq hq hk hb hhead ht]
  refine Scalar.sum_congr fun u hu => ?_
  have hu' : u < p.value.sequence.steps := hsteps ▸ hu
  have hshare : (Activation.shares p.key.sequence.steps
      (p.score batch xq xk b (j / p.width) t)).getD u 0 =
        Scalar.softmax p.key.sequence.steps (p.score batch xq xk b (j / p.width) t) u :=
    Activation.shares_getD hu _
  have hvalue : v.entry ((p.extent batch).place v b 0 (j / p.width) + j % p.width + u * p.size) =
      p.value.feature batch xv b u (j / p.width * p.width + j % p.width) := by
    have hstep := Extent.place_add (e := p.extent batch) hb hv.dims (j / p.width) (j % p.width) u
    rw [p.extent_size] at hstep
    rw [hstep]
    exact hv.entry_place (p.extent_size batch) hb hu' hhead hi
  rw [Mask.thin, hshare, hvalue]

end Parts

/-! ## The pass -/

omit [Scalar α] in
/-- Streams that are missing are those before them. -/
theorem streams_cons {β : Type} (q : β) (rest : List β) :
    streams (q :: rest) = .ok [q, rest[0]?.getD q, rest[1]?.getD (rest[0]?.getD q)] := by
  cases rest with
  | nil => rfl
  | cons k rest => cases rest <;> rfl

/-- A layer that was made for settled shapes has all its parts. -/
theorem Parts.of_built {layer : Layer α} {sizes : List (List Nat)}
    (h : Kernel.attention.Built layer sizes) : Nonempty (Parts layer) := by
  obtain ⟨shape, shapes, -, -, hlist, -, -⟩ := h.first
  obtain ⟨g, g', hbuild⟩ := h.weights
  obtain ⟨wanted, hwanted, hheads⟩ :
      ∃ n : Nat, 0 < n ∧ layer.params.integer "heads" = .ok (n : Int) :=
    h.fit.size List.mem_cons_self
  obtain ⟨size, hpos, hsize⟩ : ∃ n : Nat, 0 < n ∧ layer.params.integer "dim" = .ok (n : Int) :=
    h.fit.size (List.mem_cons_of_mem _ List.mem_cons_self)
  obtain ⟨hweights, ⟨wo, hwo, hodims⟩, bo, hbo, hbodims⟩ :=
    weights_eq_ok hsize (hlist ▸ streams_cons shape shapes) hbuild
  simp only [streamNames, List.zip_cons_cons, List.zip_nil_right, List.forall_mem_cons] at hweights
  obtain ⟨⟨⟨wq, hwq, rq, hrq, hdq⟩, bq, hbq, hbdq⟩, ⟨⟨wk, hwk, rk, hrk, hdk⟩, bk, hbk, hbdk⟩,
    ⟨⟨wv, hwv, rv, hrv, hdv⟩, bv, hbv, hbdv⟩, -⟩ := hweights
  exact ⟨{
    size, wanted, shape, shapes
    query := ⟨rq, wq, bq, hrq, hwq, hbq, hdq, hbdq⟩
    key := ⟨rk, wk, bk, hrk, hwk, hbk, hdk, hbdk⟩
    value := ⟨rv, wv, bv, hrv, hwv, hbv, hdv, hbdv⟩
    weight := wo
    bias := bo
    size_pos := hpos
    wanted_pos := hwanted
    size_eq := hsize
    wanted_eq := hheads
    shapes_eq := hlist
    weight_eq := hwo
    bias_eq := hbo
    weight_dims := hodims
    bias_dims := hbodims }⟩

/-- Where no shares are dropped and every key has a value, a layer gives at each step of a query the
affine map of the heads side by side, and draws nothing. -/
theorem forward_attends (hknows : Scalar.KnowsZero α) {layer : Layer α} (p : Parts layer)
    {mode : PassMode}
    (hmode : mode.training = true → Kernel.attention.dropsNothing layer = true)
    (hsteps : p.key.sequence.steps = p.value.sequence.steps) {batch : Nat} {x : Signal α}
    {rest : List (Signal α)} (hq : x.ReadsAs batch p.query.axes)
    (hk : (rest[0]?.getD x).ReadsAs batch p.key.axes)
    (hv : (rest[1]?.getD (rest[0]?.getD x)).ReadsAs batch p.value.axes) :
    ∃ y : Tensor α, Kernel.attention.forward layer (x :: rest) mode = pure (.real y) ∧
      y.dims = [batch, p.query.sequence.steps, p.size] ∧
      ∀ b < batch, ∀ t < p.query.sequence.steps, ∀ o < p.size,
        y.under [batch, p.query.sequence.steps, p.size] [b, t, o] =
          p.result batch x.toReal (rest[0]?.getD x).toReal
            (rest[1]?.getD (rest[0]?.getD x)).toReal b t o := by
  obtain ⟨q, hproject, hmapped⟩ := p.query.project_eq hq
  obtain ⟨k, hproject', hmapped'⟩ := p.key.project_eq hk
  obtain ⟨v, hproject'', hmapped''⟩ := p.value.project_eq hv
  have hheads := heads_eq_gcd p.size p.wanted_pos
  have hpositive : ¬((p.size.gcd p.wanted : Nat) : Int) < 0 := by omega
  have hwidth : ((p.size : Int) / (p.size.gcd p.wanted : Nat)).toNat = p.width := by
    rw [← Int.natCast_ediv, Int.toNat_natCast]
    rfl
  have hextent : extentOf q k v (p.size.gcd p.wanted) p.width = .ok (p.extent batch) := by
    simp [extentOf, hmapped.dims, hmapped'.dims, hmapped''.dims, hsteps, Parts.extent, Parts.heads]
  let context := weighed (p.extent batch) .whole ((p.extent batch).allShares q k) v
  have hundropped : undropped layer (x :: rest) =
      .ok (affine context [batch, p.query.sequence.steps, p.size] p.weight p.bias) := by
    simp only [undropped, p.size_eq, p.wanted_eq, hheads, p.shapes_eq, streams_cons, streamNames,
      List.zip_cons_cons, List.zip_nil_right, List.mapM_cons, List.mapM_nil, hproject, hproject',
      hproject'', ok_bind, pure_bind, hpositive, if_false, Int.toNat_natCast, hwidth, hextent,
      p.weight_eq, p.bias_eq, p.extent_size]
    rfl
  refine ⟨affine context [batch, p.query.sequence.steps, p.size] p.weight p.bias, ?_, rfl, ?_⟩
  · rw [Kernel.attention.forward_steady hknows layer (x :: rest) hmode, Kernel.steady, hundropped]
    rfl
  · intro b hb t ht o ho
    have hrows : volume [batch, p.query.sequence.steps, p.size] =
        batch * p.query.sequence.steps * p.size := by
      simp [Nat.mul_assoc]
    rw [affine, p.weight_dims, Tensor.under, Tensor.position_triple]
    simp only [List.getD_cons_succ, List.getD_cons_zero]
    rw [Affine.entry_apply hrows _ _ (Tensor.place_lt hb ht) ho, Parts.result]
    refine congrArg₂ (· + ·) (Scalar.sum_congr fun j hj => ?_) ?_
    · rw [p.weighed_eq hmapped hmapped' hmapped'' hsteps hb ht hj, Tensor.under,
        Tensor.position_pair]
    · rw [Tensor.under, Tensor.position_single]

/-- Attention over four features with six heads wanted, which do not divide them. -/
def unevenGraph : Graph where
  nodes := [⟨"attn", "MultiHeadAttention", [(.text "dim", .int 4), (.text "heads", .int 6),
    (.text "dropout", .real 0.0)], .null, false, .null, []⟩]
  connections := []

/-- Sequences of two steps with three features. -/
def unevenInput : TensorShape := TensorShape.batched [.size 2, .size 3] .float32

theorem forward_attends_uneven : Scalar.KnowsZero Float ∧
    ∃ (m : Model Float) (L : Layer Float) (p : Parts L),
      (compile Stock.catalog (.int 0) unevenGraph (some (.shape unevenInput))).1 = .ok m ∧
      m.layers = [L] ∧ p.size = 4 ∧ p.heads = 2 ∧ p.width = 2 ∧
      p.key.sequence.steps = p.value.sequence.steps ∧
      Kernel.attention.dropsNothing L = true ∧ ∀ mode, ∃ y : Tensor Float,
        Kernel.attention.forward L [.real (Tensor.filled [5, 6] 1)] mode = pure (.real y) ∧
        y.dims = [5, 2, p.size] ∧ ∀ b < 5, ∀ t < 2, ∀ o < p.size,
          y.under [5, 2, p.size] [b, t, o] = p.result 5 (Tensor.filled [5, 6] 1)
            (Tensor.filled [5, 6] 1) (Tensor.filled [5, 6] 1) b t o := by
  have hrun : ((compile Stock.catalog (.int 0) unevenGraph
      (some (.shape unevenInput))).1.toOption.map fun m : Model Float => m.layers.map fun L =>
        (L.kind, L.inputShapes, Kernel.attention.dropsNothing L &&
          (L.params.integer "dim").toOption == some 4 &&
            (L.params.integer "heads").toOption == some 6)) =
          some [("MultiHeadAttention", [unevenInput], true)] := by
    decide +kernel
  have hinput : unevenInput.Settled [2, 3] := ⟨rfl, by decide, by decide⟩
  obtain ⟨m, L, hok, hL, hbuilt, hshapes, htold⟩ :=
    Compilation.compile_lone (k := .attention) hinput hrun
  simp only [Bool.and_eq_true, beq_iff_eq] at htold
  obtain ⟨⟨hnothing, hdim⟩, hheads⟩ := htold
  obtain ⟨p⟩ := Parts.of_built hbuilt
  have hsize : p.size = 4 :=
    Int.ofNat.inj (Except.ok.inj (p.size_eq.symm.trans (toOption_eq_some.mp hdim)))
  have hwanted : p.wanted = 6 :=
    Int.ofNat.inj (Except.ok.inj (p.wanted_eq.symm.trans (toOption_eq_some.mp hheads)))
  have hcount : p.heads = 2 := by rw [Parts.heads, hsize, hwanted]; rfl
  obtain ⟨hfirst, hnone⟩ : unevenInput = p.shape ∧ [] = p.shapes :=
    List.cons.inj (hshapes.symm.trans p.shapes_eq)
  have hsequence : ∀ {name shape} (s : Stream L name shape p.size), shape = unevenInput →
      s.sequence = ⟨2, 3⟩ := by
    rintro name _ s rfl
    exact Except.ok.inj (s.sequence_eq.symm.trans (hinput.sequenceSize kind))
  have hquery := hsequence p.query hfirst.symm
  have hkey := hsequence p.key (by rw [← hnone, ← hfirst]; rfl)
  have hvalue := hsequence p.value (by rw [← hnone, ← hfirst]; rfl)
  have hfed : ∀ {name shape} (s : Stream L name shape p.size), s.sequence = ⟨2, 3⟩ →
      (Signal.real (Tensor.filled [5, 6] (1 : Float))).ReadsAs 5 s.axes := by
    intro name shape s hs
    rw [Stream.axes, hs]
    exact ⟨⟨[6], rfl, rfl⟩, fun hempty => by cases hempty⟩
  have hsteps : p.key.sequence.steps = p.value.sequence.steps := by rw [hkey, hvalue]
  refine ⟨Scalar.knowsZero, m, L, p, hok, hL, hsize, hcount, ?_, hsteps,
    hnothing, fun mode => ?_⟩
  · rw [Parts.width, hsize, hcount]
  · let none : List (Signal Float) := []
    have hoff : mode.training = true → Kernel.attention.dropsNothing L = true := fun _ => hnothing
    have hk : (none[0]?.getD (Signal.real (Tensor.filled [5, 6] 1))).ReadsAs 5 p.key.axes :=
      hfed p.key hkey
    have hattends := forward_attends Scalar.knowsZero p hoff hsteps (hfed p.query hquery) hk
      (hfed p.value hvalue)
    rw [hquery] at hattends
    exact hattends

end BlockNet.Attention
