import BlockNet.Proofs.Layer.Alike
import BlockNet.Proofs.Model.Reach
import BlockNet.Training.Step

/-! # Where training moves weights

A gradient names only what the result of a model reads, and an optimizer moves nothing but what a
gradient names. So however often a model learns, the weights that its result does not read stay, and
of the others nothing changes but their values. -/

namespace BlockNet

variable {α : Type}

/-! ## The form of a model -/

/-- A layer of the same form has a weight of each name. -/
theorem Layer.exists_weight {L L' : Layer α} (hform : L'.form = L.form) {w : Weight α}
    (hw : w ∈ L.weights) : ∃ w' ∈ L'.weights, w'.name = w.name := by
  have hmem : w.form ∈ L'.weights.map Weight.form := by
    rw [show L'.weights.map Weight.form = L.weights.map Weight.form from
      congrArg LayerForm.weights hform]
    exact List.mem_map_of_mem hw
  obtain ⟨w', hw', hsame⟩ := List.mem_map.mp hmem
  exact ⟨w', hw', congrArg Prod.fst hsame⟩

namespace Model

/-- What is settled about the layers of a model: all but the values of their weights. -/
def form (m : Model α) : List LayerForm := m.layers.map Layer.form

variable {m m' : Model α}

theorem exists_layer (hform : m'.form = m.form) {L : Layer α} (hL : L ∈ m.layers) :
    ∃ L' ∈ m'.layers, L'.form = L.form := by
  have hmem : L.form ∈ m'.form := hform ▸ List.mem_map_of_mem hL
  exact List.mem_map.mp hmem

theorem Feeds.congr (hform : m'.form = m.form) {id id' : String} (h : m.Feeds id id') :
    m'.Feeds id id' := by
  obtain ⟨earlier, L, later, hlayers, rfl, hfed, hid⟩ := h
  rw [form, form, hlayers, List.map_append, List.map_cons] at hform
  obtain ⟨earlier', rest, hlayers', hearlier, hrest⟩ := List.map_eq_append_iff.mp hform
  obtain ⟨L', later', rfl, hL, -⟩ := List.map_eq_cons_iff.mp hrest
  have hfeeds : L'.feeds = L.feeds := congrArg LayerForm.feeds hL
  have hids : earlier'.map (·.id) = earlier.map (·.id) := by
    simpa [Layer.form, Function.comp_def] using congrArg (List.map LayerForm.id) hearlier
  exact ⟨earlier', L', later', hlayers', congrArg LayerForm.id hL, hfeeds ▸ hfed, hids ▸ hid⟩

theorem FeedsResult.congr (hform : m'.form = m.form) {id : String} (h : m.FeedsResult id) :
    m'.FeedsResult id := by
  obtain ⟨last, hlast, hpath⟩ := h
  have hends : m'.layers.getLast?.map (·.form) = some last.form := by
    rw [← List.getLast?_map, ← form, hform, form, List.getLast?_map, hlast]
    rfl
  obtain ⟨last', hlast', hlastform⟩ := Option.map_eq_some_iff.mp hends
  have hid : last'.id = last.id := congrArg LayerForm.id hlastform
  exact ⟨last', hlast', hid ▸ hpath.lift (fun id => id) fun _ _ => Feeds.congr hform⟩

theorem ResultReads.congr (hform : m'.form = m.form) {key : String} (h : m.ResultReads key) :
    m'.ResultReads key := by
  obtain ⟨L, hL, hresult, w, hw, rfl⟩ := h
  obtain ⟨L', hL', hsame⟩ := exists_layer hform hL
  obtain ⟨w', hw', hname⟩ := Layer.exists_weight hsame hw
  have hid : L'.id = L.id := congrArg LayerForm.id hsame
  refine ⟨L', hL', hid ▸ hresult.congr hform, w', hw', ?_⟩
  rw [Layer.weightKey, Layer.weightKey, hid, hname]

/-! ## Moves -/

/-- The model with every weight at another value. -/
def mapTensors (m : Model α) (f : String → Tensor α → Tensor α) : Model α :=
  m.mapWeights fun key w => { w with tensor := f key w.tensor }

theorem mapTensors_form (m : Model α) {f : String → Tensor α → Tensor α}
    (hdims : ∀ key t, (f key t).dims = t.dims) : (m.mapTensors f).form = m.form := by
  simp [form, mapTensors, mapWeights, Layer.form, Weight.form, hdims, Function.comp_def]

theorem mapTensors_id (m : Model α) : (m.mapTensors fun _ t => t) = m := by
  simp [mapTensors, mapWeights]

theorem mapTensors_mapTensors (m : Model α) (f f' : String → Tensor α → Tensor α) :
    (m.mapTensors f).mapTensors f' = m.mapTensors fun key t => f' key (f key t) := by
  simp [mapTensors, mapWeights, Layer.weightKey, Function.comp_def]

/-- The other model has weights at other values, but for those that the result does not read. -/
def Moves (m m' : Model α) : Prop :=
  ∃ f : String → Tensor α → Tensor α, (∀ key t, (f key t).dims = t.dims) ∧
    (∀ key, ¬ m.ResultReads key → ∀ t, f key t = t) ∧ m' = m.mapTensors f

theorem Moves.refl (m : Model α) : m.Moves m :=
  ⟨fun _ t => t, fun _ _ => rfl, fun _ _ _ => rfl, m.mapTensors_id.symm⟩

theorem Moves.form (h : m.Moves m') : m'.form = m.form := by
  obtain ⟨f, hdims, -, rfl⟩ := h
  exact m.mapTensors_form hdims

theorem Moves.dataset (h : m.Moves m') : m'.dataset = m.dataset := by
  obtain ⟨f, -, -, rfl⟩ := h
  rfl

theorem Moves.trans {m'' : Model α} (h : m.Moves m') (h' : m'.Moves m'') : m.Moves m'' := by
  have hform := h.form
  obtain ⟨f, hdims, hstays, rfl⟩ := h
  obtain ⟨f', hdims', hstays', rfl⟩ := h'
  refine ⟨_, fun key t => (hdims' key _).trans (hdims key t), fun key hkey t => ?_,
    m.mapTensors_mapTensors f f'⟩
  -- the moved model has the same form, so its result reads the same weights
  rw [hstays key hkey, hstays' key fun h => hkey (h.congr hform.symm)]

end Model

/-! ## Learning -/

variable [Scalar α]

theorem Optimizer.moved_dims (o : Optimizer α) (rate : α) (m : Momentum α) (t : Tensor α) :
    (o.moved rate m t).dims = t.dims := by
  rw [moved]
  split <;> rfl

theorem Optimizer.step_moves {o o' : Optimizer α} {rate : Number} {g : Gradient α} {m m' : Model α}
    (hg : ∀ e ∈ g, m.ResultReads e.1) (h : o.step rate g m = .ok (o', m')) : m.Moves m' := by
  rw [Optimizer.step] at h
  obtain ⟨fade, -, h⟩ := bind_eq_ok.mp h
  obtain ⟨pace, -, h⟩ := bind_eq_ok.mp h
  obtain ⟨-, rfl⟩ := Prod.mk.inj (Except.ok.inj h)
  let memory := g.map fun e => (e.1, o.learn fade (o.momentumOf e.1 e.2.dims) e.2)
  refine ⟨fun key t => (memory.find? (·.1 == key)).elim t fun e => o.moved pace e.2 t,
    fun key t => ?_, fun key hkey t => ?_, congrArg m.mapWeights (funext₂ fun key w => ?_)⟩
  · dsimp only
    cases memory.find? (·.1 == key) with
    | none => rfl
    | some e => exact o.moved_dims pace e.2 t
  · have hnone : memory.find? (·.1 == key) = none := by
      refine List.find?_eq_none.mpr fun e he heq => ?_
      obtain ⟨⟨name, slope⟩, hmem, rfl⟩ := List.mem_map.mp he
      exact hkey (eq_of_beq heq ▸ hg _ hmem)
    exact congrArg (fun found : Option (String × Momentum α) => found.elim t _) hnone
  · dsimp only
    split
    · rename_i hfound
      have hfound : memory.find? (·.1 == key) = some _ := hfound
      rw [hfound]
      rfl
    · rename_i hnone
      have hnone : memory.find? (·.1 == key) = none := hnone
      rw [hnone]
      rfl

theorem Gradient.clipped_names (g : Gradient α) (limit : α) :
    (g.clipped limit).map (·.1) = g.map (·.1) := by
  simp [clipped, Function.comp_def]

namespace Learner

theorem descend_moves {l l' : Learner α} {r : Regime} {g : Gradient α}
    (hg : ∀ e ∈ g, l.model.ResultReads e.1) (h : l.descend r g = .ok l') :
    l.model.Moves l'.model := by
  rw [descend] at h
  obtain ⟨limit, -, h⟩ := bind_eq_ok.mp h
  obtain ⟨⟨o, m⟩, hstep, h⟩ := bind_eq_ok.mp h
  obtain rfl := Except.ok.inj h
  refine Optimizer.step_moves (fun e he => ?_) hstep
  cases limit with
  | none => exact hg e he
  | some x =>
      have hmem := List.mem_map_of_mem (f := (·.1)) he
      rw [Option.elim_some, Gradient.clipped_names] at hmem
      obtain ⟨e', he', heq⟩ := List.mem_map.mp hmem
      exact heq ▸ hg e' he'

theorem learnFrom_moves (l : Learner α) (r : Regime) (b : Batch α) {p : Pass α}
    (hlayers : p.visits.map (·.layer) <+: l.model.layers) :
    l.model.Moves (l.learnFrom r b p).1.model := by
  rw [learnFrom]
  dsimp only
  split
  · exact .refl _
  · exact .refl _
  · rename_i g hmeasured
    split
    · exact .refl _
    · rename_i hmoved
      refine descend_moves (l := { l with watcher := l.watcher.map fun w => w.observe g }) ?_ hmoved
      obtain ⟨output, -, h⟩ := bind_eq_ok.mp hmeasured
      obtain ⟨totals, -, h⟩ := bind_eq_ok.mp h
      obtain ⟨g, hg, h⟩ := bind_eq_ok.mp h
      obtain ⟨-, rfl⟩ := Prod.mk.inj (Except.ok.inj h)
      rw [Pass.lossGradient?] at hg
      split at hg
      · obtain ⟨slope, -, hg⟩ := bind_eq_ok.mp hg
        obtain rfl := Option.some.inj (Except.ok.inj hg)
        exact Pass.gradient_names hlayers slope
      · cases hg

theorem learn_moves (l : Learner α) (r : Regime) (b : Batch α) :
    l.model.Moves (l.learn r b).1.model := by
  rw [learn]
  split
  · exact .refl _
  · rename_i inputs _
    let p := l.model.run inputs ⟨true, true⟩ l.generator
    exact learnFrom_moves { l with generator := p.generator, audience := l.audience.attend p } r b
      (l.model.run_layers inputs ⟨true, true⟩ l.generator)

/-- Learning from batches one after another moves only what the result reads. -/
theorem learnAll_moves (r : Regime) (e : Epoch α) (left : Nat) (l : Learner α) (sums : Totals α)
    (k : Nat) : l.model.Moves (learnAll r e l sums left k).1.model := by
  induction left generalizing l sums k with
  | zero => exact .refl _
  | succ left ih =>
      rw [learnAll]
      split
      · exact .refl _
      · rename_i b _
        have hlearn := l.learn_moves r b
        split
        · rename_i hb
          rwa [hb] at hlearn
        · rename_i hb
          rw [hb] at hlearn
          exact hlearn.trans (ih _ _ _)

end Learner

end BlockNet
