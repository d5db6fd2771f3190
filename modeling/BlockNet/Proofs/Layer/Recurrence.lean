import BlockNet.Proofs.Compilation.Built
import BlockNet.Proofs.Layer.Entries

/-! # Recurrent layers step by step

A cell starts from zeros and carries two vectors from step to step by the recurrence of its gates. What
it shows after a step hangs on the steps up to that one only. A layer gives what its cell shows after
every step, or after the last one. -/

namespace BlockNet.Recurrent

variable {α : Type} [Scalar α]

namespace Cell

/-! ## The recurrence -/

/-- The sum behind a unit of a gate. The rows of the gates follow one another in blocks, a row for
each unit. -/
def sumBehind (c : Cell α) (x shown : Nat → α) (gate j : Nat) : α :=
  Scalar.sum c.features (fun k =>
      x k * c.input.under [4 * c.units, c.features] [gate * c.units + j, k]) +
    Scalar.sum c.units (fun k =>
      shown k * c.hidden.under [4 * c.units, c.units] [gate * c.units + j, k]) +
    c.bias.under [4 * c.units] [gate * c.units + j]

/-- What is kept after a step: as much of what was kept as the second gate lets through, and as much
of the candidate, the third of the gates, as the first one lets in. -/
def keptAfter (c : Cell α) (x shown kept : Nat → α) (j : Nat) : α :=
  Scalar.sigmoid (c.sumBehind x shown 1 j) * kept j +
    Scalar.sigmoid (c.sumBehind x shown 0 j) * Scalar.tanh (c.sumBehind x shown 2 j)

/-- What is shown after a step: as much of what is kept as the fourth gate lets out. -/
def shownAfter (c : Cell α) (x shown kept : Nat → α) (j : Nat) : α :=
  Scalar.sigmoid (c.sumBehind x shown 3 j) * Scalar.tanh (c.keptAfter x shown kept j)

/-- What a cell shows and what it keeps after a number of steps, from zeros on. -/
def carried (c : Cell α) (x : Nat → Nat → α) : Nat → (Nat → α) × (Nat → α)
  | 0 => (fun _ => 0, fun _ => 0)
  | t + 1 =>
      let past := c.carried x t
      (c.shownAfter (x t) past.1 past.2, c.keptAfter (x t) past.1 past.2)

theorem sumBehind_congr (c : Cell α) {x x' : Nat → α} (h : ∀ k < c.features, x k = x' k)
    (shown : Nat → α) : c.sumBehind x shown = c.sumBehind x' shown := by
  funext gate j
  rw [sumBehind, sumBehind, Scalar.sum_congr fun k hk => by rw [h k hk]]

/-- What is carried on after some steps hangs on these steps only. -/
theorem carried_congr (c : Cell α) {x x' : Nat → Nat → α} {t : Nat}
    (h : ∀ s < t, ∀ k < c.features, x s k = x' s k) : c.carried x t = c.carried x' t := by
  induction t with
  | zero => rfl
  | succ t ih =>
      have hpast := ih fun s hs => h s (Nat.lt_succ_of_lt hs)
      have hsum := c.sumBehind_congr (h t (Nat.lt_succ_self t))
      have hkept : c.keptAfter (x t) = c.keptAfter (x' t) := by
        funext shown kept j
        simp only [keptAfter, hsum]
      have hshown : c.shownAfter (x t) = c.shownAfter (x' t) := by
        funext shown kept j
        simp only [shownAfter, hsum, hkept]
      simp only [carried, hpast, hkept, hshown]

/-! ## States -/

/-- A state holds the vectors that are carried on. -/
def Holds (c : Cell α) (s : State α) (carried : (Nat → α) × (Nat → α)) : Prop :=
  s.shown.size = c.units ∧ ∀ j < c.units,
    s.shown.getD j 0 = carried.1 j ∧ s.kept.getD j 0 = carried.2 j

theorem holds_start (c : Cell α) (x : Nat → Nat → α) : c.Holds c.start (c.carried x 0) := by
  refine ⟨by simp [start], fun j hj => ?_⟩
  simp [start, carried, hj]

theorem drive_eq (c : Cell α) (x : Nat → α) {s : State α} {past : (Nat → α) × (Nat → α)}
    (h : c.Holds s past) (gate j : Nat) :
    c.drive x s (gate * c.units + j) = c.sumBehind x past.1 gate j := by
  have hshown : Scalar.sum c.units (fun k =>
        s.shown.getD k 0 * c.hidden.entry ((gate * c.units + j) * c.units + k)) =
      Scalar.sum c.units fun k =>
        past.1 k * c.hidden.entry ((gate * c.units + j) * c.units + k) :=
    Scalar.sum_congr fun k hk => by rw [(h.2 k hk).1]
  rw [drive, hshown, sumBehind]
  simp only [Tensor.under, Tensor.position_pair, Tensor.position_single]

/-- A step takes what is held to what is carried on. -/
theorem holds_next {c : Cell α} {x : Nat → Nat → α} {t : Nat} {s : State α}
    (h : c.Holds s (c.carried x t)) : c.Holds (c.next (x t) s) (c.carried x (t + 1)) := by
  refine ⟨by simp [next, Tensor.row], fun j hj => ?_⟩
  have hkept : (c.next (x t) s).kept.getD j 0 = (c.carried x (t + 1)).2 j := by
    simp only [next, gates, Tensor.getD_row _ hj, c.drive_eq (x t) h, (h.2 j hj).2]
    rfl
  refine ⟨?_, hkept⟩
  simp only [next, gates, Tensor.getD_row _ hj, c.drive_eq (x t) h, (h.2 j hj).2]
  rfl

theorem states_succ (c : Cell α) (steps : Nat) (x : Nat → Nat → α) :
    c.states (steps + 1) x =
      (c.states steps x).push (c.next (x steps) ((c.states steps x).back?.getD c.start)) := by
  rw [states, Nat.fold_succ, ← states]

/-- After some steps a cell holds what is carried on. -/
theorem holds_latest (c : Cell α) (x : Nat → Nat → α) (steps : Nat) :
    c.Holds ((c.states steps x).back?.getD c.start) (c.carried x steps) := by
  induction steps with
  | zero => exact c.holds_start x
  | succ steps ih =>
      rw [states_succ, Array.back?_push, Option.getD_some]
      exact holds_next ih

/-- What a cell shows after each of its steps, side by side. -/
def row (c : Cell α) (steps : Nat) (x : Nat → Nat → α) : Array α :=
  (c.states steps x).foldl (fun row s => row ++ s.shown) #[]

theorem row_succ (c : Cell α) (steps : Nat) (x : Nat → Nat → α) :
    c.row (steps + 1) x = c.row steps x ++ ((c.states (steps + 1) x).back?.getD c.start).shown := by
  rw [row, states_succ, Array.foldl_push, Array.back?_push, Option.getD_some]
  rfl

/-- The row has a block for each step, which holds what is shown after it. -/
theorem row_spec (c : Cell α) (x : Nat → Nat → α) (steps : Nat) :
    (c.row steps x).size = steps * c.units ∧ ∀ t < steps, ∀ j < c.units,
      (c.row steps x).getD (t * c.units + j) 0 = (c.carried x (t + 1)).1 j := by
  induction steps with
  | zero => simp [row, states]
  | succ steps ih =>
      obtain ⟨hsize, hentry⟩ := ih
      obtain ⟨hlast, hshown⟩ := c.holds_latest x (steps + 1)
      rw [row_succ]
      refine ⟨by rw [Array.size_append, hsize, hlast, Nat.succ_mul], fun t ht j hj => ?_⟩
      rw [Array.getD_eq_getD_getElem?]
      by_cases hstep : t = steps
      · have hbehind : steps * c.units ≤ steps * c.units + j := Nat.le_add_right ..
        rw [hstep, Array.getElem?_append_right (hsize ▸ hbehind), hsize, Nat.add_sub_cancel_left,
          ← Array.getD_eq_getD_getElem?, (hshown j hj).1]
      · have hbefore : t * c.units + j < (c.row steps x).size := by
          rw [hsize]
          exact Tensor.place_lt (by omega) hj
        rw [Array.getElem?_append_left hbefore, ← Array.getD_eq_getD_getElem?]
        exact hentry t (by omega) j hj

end Cell

/-! ## Layers -/

/-- What a layer is made of: the number of steps that samples are read as, and a cell. -/
structure Parts (layer : Layer α) where
  steps : Nat
  cell : Cell α
  units_eq : layer.params.integer "units" = .ok (cell.units : Int)
  sequence_eq :
    (do (← firstOf layer.inputShapes).sequenceSize kind) = Except.ok ⟨steps, cell.features⟩
  input_eq : layer.weight "w_ih" = .ok cell.input
  hidden_eq : layer.weight "w_hh" = .ok cell.hidden
  bias_eq : layer.weight "bias" = .ok cell.bias
  input_dims : cell.input.dims = [4 * cell.units, cell.features]
  hidden_dims : cell.hidden.dims = [4 * cell.units, cell.units]
  bias_dims : cell.bias.dims = [4 * cell.units]

namespace Parts

variable {layer : Layer α} (p : Parts layer)

/-- The axes that a sample is read under. -/
def axes : List Nat := [p.steps, p.cell.features]

/-- The features of the steps of a sample of a batch. -/
def read (batch : Nat) (x : Tensor α) (b t k : Nat) : α := x.under (batch :: p.axes) [b, t, k]

omit [Scalar α] in
/-- Layers of the same weights and shapes have the same cell and the same number of steps. -/
theorem congr {other : Layer α} (q : Parts other) (hweights : other.weights = layer.weights)
    (hshapes : other.inputShapes = layer.inputShapes) : q.steps = p.steps ∧ q.cell = p.cell := by
  have hweight : ∀ name, other.weight name = layer.weight name := by
    intro name
    rw [Layer.weight, Layer.weight, Layer.weight?, Layer.weight?, hweights]
  have hinput := Except.ok.inj (q.input_eq.symm.trans ((hweight _).trans p.input_eq))
  have hhidden := Except.ok.inj (q.hidden_eq.symm.trans ((hweight _).trans p.hidden_eq))
  have hbias := Except.ok.inj (q.bias_eq.symm.trans ((hweight _).trans p.bias_eq))
  have hsequence := q.sequence_eq.symm.trans (hshapes ▸ p.sequence_eq)
  obtain ⟨hsteps, hfeatures⟩ := SequenceSize.mk.inj (Except.ok.inj hsequence)
  have hunits : q.cell.units = p.cell.units := by
    have hdims := q.hidden_dims.symm.trans (hhidden ▸ p.hidden_dims)
    simp only [List.cons.injEq, and_true] at hdims
    exact hdims.2
  refine ⟨hsteps, ?_⟩
  cases hq : q.cell
  cases hp : p.cell
  simp_all

/-- A layer that was made for a settled shape has all its parts, and at least one step. -/
theorem of_built {sizes : List (List Nat)} (h : Kernel.recurrent.Built layer sizes) :
    ∃ p : Parts layer, 0 < p.steps := by
  obtain ⟨shape, shapes, s, rest, hlist, -, hs⟩ := h.first
  obtain ⟨g, g', hbuild⟩ := h.weights
  rw [hlist] at hbuild
  obtain ⟨units, -, hunits⟩ :
      ∃ n : Nat, 0 < n ∧ layer.params.integer "units" = .ok (n : Int) :=
    h.fit.size List.mem_cons_self
  obtain ⟨input, hidden, bias, hinput, hhidden, hbias, hidims, hhdims, hbdims⟩ :=
    weights_eq_ok (hs.sequenceSize kind) hunits hbuild
  have hsteps : 0 < volume s.dropLast :=
    volume_pos fun n hn => hs.positive n ((List.dropLast_sublist s).subset hn)
  exact ⟨{
    steps := volume s.dropLast
    cell := ⟨units, s.getLast hs.nonempty, input, hidden, bias⟩
    units_eq := hunits
    sequence_eq := by rw [hlist, firstOf_cons, ok_bind, hs.sequenceSize kind]
    input_eq := hinput
    hidden_eq := hhidden
    bias_eq := hbias
    input_dims := hidims
    hidden_dims := hhdims
    bias_dims := hbdims }, hsteps⟩

variable {batch : Nat} {x : Signal α} (hsteps : 0 < p.steps) (hx : x.ReadsAs batch p.axes)
  (xs : List (Signal α))

include hsteps hx

/-- A layer lets its cell run through the sequences. -/
theorem forward_eq : ∃ t : Tensor α, t.entries = x.toReal.entries ∧
    forward layer (x :: xs) = .ok (run p.cell batch p.steps t (keepsSteps layer.params)) := by
  obtain ⟨shape, hshape, hsequence⟩ := bind_eq_ok.mp p.sequence_eq
  obtain ⟨t, ht, -, hentries⟩ := hx.reshape_eq
  have hcell : cellOf layer p.cell.features = .ok p.cell := by
    simp only [cellOf, p.input_eq, p.hidden_eq, p.bias_eq, p.hidden_dims, ok_bind,
      List.getD_cons_succ, List.getD_cons_zero]
  have hsign : ¬(p.cell.units : Int) < 0 := by omega
  have hsome : ¬(keepsSteps layer.params = true ∧ p.steps = 0) := by omega
  refine ⟨t, hentries, ?_⟩
  rw [axes] at ht
  simp only [forward, hshape, hsequence, p.units_eq, firstOf_cons, hx.batch_eq, ht, hcell, ok_bind,
    hsign, hsome, if_false]

omit hsteps hx in
/-- The cell reads the steps of a sample. -/
theorem read_eq {t : Tensor α} {x : Tensor α} (ht : t.entries = x.entries) (b : Nat) :
    (fun n k => t.entry ((b * p.steps + n) * p.cell.features + k)) = p.read batch x b := by
  funext n k
  rw [read, Tensor.under, axes, Tensor.position_triple, Tensor.entry_congr ht]

/-- A layer that keeps its steps gives what is shown after each of them. -/
theorem forward_steps (hkeeps : keepsSteps layer.params = true) :
    ∃ y : Tensor α, forward layer (x :: xs) = .ok y ∧ y.dims = [batch, p.steps, p.cell.units] ∧
      ∀ b < batch, ∀ t < p.steps, ∀ j < p.cell.units,
        y.under [batch, p.steps, p.cell.units] [b, t, j] =
          (p.cell.carried (p.read batch x.toReal b) (t + 1)).1 j := by
  obtain ⟨r, hentries, hforward⟩ := p.forward_eq hsteps hx xs
  rw [hkeeps] at hforward
  refine ⟨_, hforward, rfl, fun b hb t ht j hj => ?_⟩
  have hblocks : volume [batch, p.steps, p.cell.units] = batch * (p.steps * p.cell.units) := by simp
  have hplace : (b * p.steps + t) * p.cell.units + j =
      b * (p.steps * p.cell.units) + (t * p.cell.units + j) := by ring
  rw [Tensor.under, Tensor.position_triple, hplace, run, if_pos rfl,
    Tensor.entry_ofRows hblocks _ hb (Tensor.place_lt ht hj)]
  beta_reduce
  rw [p.read_eq hentries]
  exact (p.cell.row_spec _ p.steps).2 t ht j hj

/-- A layer that does not gives what is shown after the last one. -/
theorem forward_latest (hlast : keepsSteps layer.params = false) :
    ∃ y : Tensor α, forward layer (x :: xs) = .ok y ∧ y.dims = [batch, p.cell.units] ∧
      ∀ b < batch, ∀ j < p.cell.units, y.under [batch, p.cell.units] [b, j] =
        (p.cell.carried (p.read batch x.toReal b) p.steps).1 j := by
  obtain ⟨r, hentries, hforward⟩ := p.forward_eq hsteps hx xs
  rw [hlast] at hforward
  refine ⟨_, hforward, rfl, fun b hb j hj => ?_⟩
  have hrows : volume [batch, p.cell.units] = batch * p.cell.units := by simp
  rw [Tensor.under, Tensor.position_pair, run, if_neg Bool.false_ne_true,
    Tensor.entry_ofRows hrows _ hb hj]
  beta_reduce
  rw [p.read_eq hentries]
  exact ((p.cell.holds_latest _ p.steps).2 j hj).1

end Parts

/-- A layer that keeps its steps follows the recurrence of its cell, from zeros on; what it gives at a
step is the same for all inputs that agree up to that step; and what it gives at the last step is what
a layer of the same weights gives that does not keep its steps. -/
theorem forward_recurs {layer last : Layer α} (p : Parts layer) (q : Parts last)
    (hweights : last.weights = layer.weights) (hshapes : last.inputShapes = layer.inputShapes)
    (hkeeps : keepsSteps layer.params = true) (hlast : keepsSteps last.params = false)
    (hsteps : 0 < p.steps) {batch : Nat} {x : Signal α} (hx : x.ReadsAs batch p.axes)
    (xs : List (Signal α)) (mode : PassMode) :
    ∃ y z : Tensor α, Kernel.recurrent.forward layer (x :: xs) mode = pure (.real y) ∧
      Kernel.recurrent.forward last (x :: xs) mode = pure (.real z) ∧
      y.dims = [batch, p.steps, p.cell.units] ∧ z.dims = [batch, p.cell.units] ∧
      (∀ b < batch, ∀ t < p.steps, ∀ j < p.cell.units,
        y.under [batch, p.steps, p.cell.units] [b, t, j] =
          (p.cell.carried (p.read batch x.toReal b) (t + 1)).1 j) ∧
      (∀ (x' : Signal α) (xs' : List (Signal α)), x'.ReadsAs batch p.axes →
        ∃ y' : Tensor α, Kernel.recurrent.forward layer (x' :: xs') mode = pure (.real y') ∧
          y'.dims = [batch, p.steps, p.cell.units] ∧ ∀ b < batch, ∀ t < p.steps,
            (∀ s ≤ t, ∀ k < p.cell.features,
              p.read batch x.toReal b s k = p.read batch x'.toReal b s k) →
            ∀ j < p.cell.units, y.under [batch, p.steps, p.cell.units] [b, t, j] =
              y'.under [batch, p.steps, p.cell.units] [b, t, j]) ∧
      ∀ b < batch, ∀ j < p.cell.units, z.under [batch, p.cell.units] [b, j] =
        y.under [batch, p.steps, p.cell.units] [b, p.steps - 1, j] := by
  have hkernel : ∀ (l : Layer α) (x : Signal α) xs, Kernel.recurrent.forward l (x :: xs) mode =
      (liftM (forward l (x :: xs)) >>= fun y => pure (.real y)) := fun _ _ _ => rfl
  obtain ⟨hsame, hcell⟩ := p.congr q hweights hshapes
  have haxes : q.axes = p.axes := by rw [Parts.axes, Parts.axes, hsame, hcell]
  obtain ⟨y, hy, hydims, hentry⟩ := p.forward_steps hsteps hx xs hkeeps
  obtain ⟨z, hz, hzdims, hlatest⟩ := q.forward_latest (hsame ▸ hsteps) (haxes ▸ hx) xs hlast
  have hread : q.read batch x.toReal = p.read batch x.toReal := by
    funext b t k
    rw [Parts.read, Parts.read, haxes]
  rw [hcell] at hzdims hlatest
  rw [hread, hsame] at hlatest
  refine ⟨y, z, by rw [hkernel, hy]; rfl, by rw [hkernel, hz]; rfl, hydims, hzdims, hentry, ?_, ?_⟩
  · intro x' xs' hx'
    obtain ⟨y', hy', hydims', hentry'⟩ := p.forward_steps hsteps hx' xs' hkeeps
    refine ⟨y', by rw [hkernel, hy']; rfl, hydims', fun b hb t ht hagree j hj => ?_⟩
    have hcarried : p.cell.carried (p.read batch x.toReal b) (t + 1) =
        p.cell.carried (p.read batch x'.toReal b) (t + 1) :=
      p.cell.carried_congr fun s hs k hk => hagree s (Nat.le_of_lt_succ hs) k hk
    rw [hentry b hb t ht j hj, hentry' b hb t ht j hj, hcarried]
  · intro b hb j hj
    have hstep : p.steps - 1 + 1 = p.steps := Nat.sub_add_cancel hsteps
    rw [hlatest b hb j hj, hentry b hb (p.steps - 1) (by omega) j hj, hstep]

/-- A recurrent layer that keeps its steps. -/
def steppingGraph : Graph where
  nodes := [⟨"lstm", "LSTM", [(.text "units", .int 2), (.text "return_sequences", .bool true)],
    .null, false, .null, []⟩]
  connections := []

/-- Samples of three rows of two steps each, with one feature. -/
def steppingInput : TensorShape := TensorShape.batched [.size 3, .size 2, .size 1] .float32

theorem forward_recurs_stepping : ∃ (m : Model Float) (L last : Layer Float) (p : Parts L)
    (_ : Parts last),
    (compile Stock.catalog (.int 0) steppingGraph (some (.shape steppingInput))).1 = .ok m ∧
    m.layers = [L] ∧ (last.weights = L.weights ∧ last.inputShapes = L.inputShapes) ∧
    (keepsSteps L.params = true ∧ keepsSteps last.params = false) ∧ p.steps = 6 ∧
    ∀ mode, ∃ y z : Tensor Float,
      Kernel.recurrent.forward L [.real (Tensor.filled [4, 6] 1)] mode = pure (.real y) ∧
      Kernel.recurrent.forward last [.real (Tensor.filled [4, 6] 1)] mode = pure (.real z) ∧
      (∀ b < 4, ∀ t < p.steps, ∀ j < p.cell.units,
        y.under [4, p.steps, p.cell.units] [b, t, j] =
          (p.cell.carried (p.read 4 (Tensor.filled [4, 6] 1) b) (t + 1)).1 j) ∧
      ∀ b < 4, ∀ j < p.cell.units, z.under [4, p.cell.units] [b, j] =
        y.under [4, p.steps, p.cell.units] [b, p.steps - 1, j] := by
  have hrun : ((compile Stock.catalog (.int 0) steppingGraph
      (some (.shape steppingInput))).1.toOption.map fun m : Model Float => m.layers.map fun L =>
        (L.kind, L.inputShapes, (L.params.integer "units").toOption, keepsSteps L.params)) =
          some [("LSTM", [steppingInput], some 2, true)] := by
    decide +kernel
  have hinput : steppingInput.Settled [3, 2, 1] := ⟨rfl, by decide, by decide⟩
  obtain ⟨m, L, hok, hL, hbuilt, hshapes, htold⟩ :=
    Compilation.compile_lone (k := .recurrent) hinput hrun
  obtain ⟨hunits, hkeeps⟩ := Prod.mk.inj htold
  obtain ⟨p, hpos⟩ := Parts.of_built hbuilt
  have hsequence : (⟨p.steps, p.cell.features⟩ : SequenceSize) = ⟨6, 1⟩ := by
    have hsequence := p.sequence_eq
    rw [hshapes, firstOf_cons, ok_bind, hinput.sequenceSize kind] at hsequence
    exact (Except.ok.inj hsequence).symm
  obtain ⟨hsteps, hfeatures⟩ := SequenceSize.mk.inj hsequence
  let last : Layer Float := { L with params := [(.text "units", .int 2)] }
  have hwidth : (2 : Int) = p.cell.units :=
    Except.ok.inj ((toOption_eq_some.mp hunits).symm.trans p.units_eq)
  let q : Parts last := { p with units_eq := hwidth ▸ rfl }
  have hreads : (Signal.real (Tensor.filled [4, 6] (1 : Float))).ReadsAs 4 p.axes := by
    rw [Parts.axes, hsteps, hfeatures]
    exact ⟨⟨[6], rfl, rfl⟩, fun hempty => by cases hempty⟩
  refine ⟨m, L, last, p, q, hok, hL, ⟨rfl, rfl⟩, ⟨hkeeps, rfl⟩, hsteps,
    fun mode => ?_⟩
  obtain ⟨y, z, hy, hz, -, -, hentry, -, hlatest⟩ :=
    forward_recurs p q rfl rfl hkeeps rfl hpos hreads [] mode
  exact ⟨y, z, hy, hz, hentry, hlatest⟩

end BlockNet.Recurrent
