import BlockNet.Proofs.Compilation.Keys
import BlockNet.Proofs.Training.Run

/-! # The frame of training

Training leaves every layer alone from which the last one cannot be reached along feeds. Weights are
told apart by their keys, and in a compiled model a key tells the layer. -/

namespace BlockNet

variable {α : Type}

/-! ## Keys of weights -/

/-- All weights of the model are under names that weights have. -/
def Model.Named (m : Model α) : Prop := ∀ L ∈ m.layers, Weight.Named L.weights

theorem Model.Named.congr {m m' : Model α} (hform : m'.form = m.form) (h : m.Named) : m'.Named := by
  intro L' hL' w' hw'
  obtain ⟨L, hL, hsame⟩ := exists_layer hform.symm hL'
  obtain ⟨w, hw, hname⟩ := Layer.exists_weight hsame hw'
  exact hname ▸ h L hL w hw

/-- The key of a weight tells its layer, so the result reads it only if the layer feeds the result. -/
theorem Model.Named.feedsResult {m : Model α} (h : m.Named) {K : Layer α} (hK : K ∈ m.layers)
    {w : Weight α} (hw : w ∈ K.weights) (hreads : m.ResultReads (K.weightKey w)) :
    m.FeedsResult K.id := by
  obtain ⟨L, hL, hresult, v, hv, hkey⟩ := hreads
  exact (Layer.weightKey_inj (h K hK w hw) (h L hL v hv) hkey).1 ▸ hresult

/-- Moves leave a layer alone that does not feed the result. -/
theorem Model.Moves.layer_eq {m m' : Model α} (h : m.Moves m') (hnamed : m.Named) {i : Nat}
    {K : Layer α} (hK : m.layers[i]? = some K) (hfeeds : ¬ m.FeedsResult K.id) :
    m'.layers[i]? = some K := by
  obtain ⟨f, -, hstays, rfl⟩ := h
  have hweights : K.weights.map (fun w => { w with tensor := f (K.weightKey w) w.tensor }) =
      K.weights := by
    refine (List.map_congr_left fun w hw => ?_).trans (List.map_id _)
    have hunread := mt (hnamed.feedsResult (List.mem_of_getElem? hK) hw) hfeeds
    rw [hstays _ hunread]
    rfl
  simp [mapTensors, mapWeights, hK, hweights]

/-- Layers that feed none but each other do not feed the result, if the last one is not among them. -/
theorem Model.not_feedsResult {m : Model α} (ids : List String)
    (hlast : ∀ last, m.layers.getLast? = some last → last.id ∉ ids)
    (hclosed : ∀ L ∈ m.layers, ∀ id ∈ L.feeds, id ∈ ids → L.id ∈ ids) {id : String}
    (hid : id ∈ ids) : ¬ m.FeedsResult id := by
  rintro ⟨last, hend, hpath⟩
  have hreached : ∀ id', Relation.ReflTransGen m.Feeds id id' → id' ∈ ids := by
    intro id' hpath
    induction hpath with
    | refl => exact hid
    | tail _ hfeeds ih =>
        obtain ⟨earlier, L, later, hlayers, rfl, hfed, -⟩ := hfeeds
        exact hclosed L (by simp [hlayers]) _ hfed ih
  exact hlast last hend (hreached last.id hpath)

namespace Compilation

variable [Scalar α]

theorem Compiled.named {catalog : Catalog} {g : Graph} {m : Model α} (h : Compiled catalog g m) :
    m.Named := fun _ hL => (h.listed hL).named

end Compilation

namespace Trainer

variable [Scalar α]

/-- A run moves weights only that the result of the model reads. -/
theorem run_moves (t : Trainer α) (f : Follower α) : t.model.Moves (t.run f).1.trainer.model := by
  cases hidle : t.running with
  | true =>
      rw [run, start, hidle]
      exact .refl _
  | false =>
      cases hcount : t.config.epochCount with
      | error fault =>
          rw [run_eq_error hidle hcount]
          exact .refl _
      | ok n =>
          rw [run_eq hidle hcount]
          have hepochs := throughEpochs_keeps (R := fun s s' : Noted α =>
              s.trainer.model.Moves s'.trainer.model) (fun s => .refl _) Model.Moves.trans
            (fun e s => by
              obtain ⟨learner, history, stopRequested, h, hmoves⟩ := tellEpoch_eq f e s
              rw [h]
              exact hmoves)
            (fun s => s.trainer.stopRequested) n 1 ⟨t.begun, [t.begun.startNote], []⟩
          change t.model.Moves (tellEpochs f n 1 _).1.trainer.model at hepochs
          generalize tellEpochs f n 1 ⟨t.begun, [t.begun.startNote], []⟩ = gone at hepochs ⊢
          rcases gone with ⟨s, _ | fault⟩
          all_goals exact hepochs

/-- Whatever is trained of a compiled model, by whatever configuration, on whatever batches and for
however many epochs, a layer stays as it was from which the last layer cannot be reached along feeds. -/
theorem run_frame {catalog : Catalog} {seed : Value} {g : Graph} {input : Option InputSpec}
    {m : Model α} (hm : (compile catalog seed g input).1 = .ok m) {t : Trainer α}
    (hform : t.model.form = m.form) (f : Follower α) {i : Nat} {K : Layer α}
    (hK : t.model.layers[i]? = some K) (hfeeds : ¬ t.model.FeedsResult K.id) :
    (t.run f).1.trainer.model.layers[i]? = some K :=
  (t.run_moves f).layer_eq ((Compilation.compile_compiled hm).named.congr hform) hK hfeeds

omit [Scalar α] in
theorem build_model {m : Model α} {config : Value} {source validation : Option (Source α)}
    {watcher : Option (Watcher α)} {t : Trainer α}
    (h : (build (some m) config source validation watcher).1 = .ok t) : t.model = m := by
  have hmodel : ∀ {c source validation},
      ofSources m c source validation watcher = .ok t → t.model = m := by
    intro c source validation h
    obtain ⟨_, -, h⟩ := bind_eq_ok.mp h
    obtain rfl := Except.ok.inj h
    rfl
  simp only [build] at h
  split at h
  · cases h
  · exact hmodel h
  · obtain ⟨_, -, h⟩ := bind_eq_ok.mp h
    exact hmodel h

/-- A dense layer that feeds a second one, which feeds none, and a third that gives the output. -/
def siding : Graph :=
  let dense (id : String) : Node :=
    ⟨id, "Dense", [(.text "units", .int 2)], .null, false, .null, []⟩
  { nodes := [dense "aside", dense "end", dense "used"]
    connections := [⟨.null, "aside", .text "output", "end", .text "input", .null, .null, []⟩] }

/-- A trainer of the three layers, with momentum and a limit for gradients. -/
def sidingTrainer? : Option (Trainer Float) :=
  let input := TensorShape.batched [.size 3] .float32
  let config := .dict [(.text "epochs", .int 3), (.text "optimizer", .text "sgd"),
    (.text "momentum", .real 0.5), (.text "grad_clip", .real 1)]
  (compile Stock.catalog (.int 0) siding (some (.shape input))).1.toOption.bind fun m =>
    (build (some m) config (some (.fixed [pairBatch])) none none).1.toOption

theorem run_frame_siding : ∃ input, ∃ m : Model Float, ∃ t K,
    (compile Stock.catalog (.int 0) siding input).1 = .ok m ∧ sidingTrainer? = some t ∧
    t.model.form = m.form ∧ t.model.layers[0]? = some K ∧
    (K.id, K.weights.map (·.name)) = ("aside", ["kernel", "bias"]) ∧
    ¬ t.model.FeedsResult K.id ∧
    (t.run .nobody).1.trainer.model.layers[0]? = some K := by
  have hrun : (sidingTrainer?.map fun t => t.model.layers.map fun L =>
      (L.id, L.feeds, L.weights.map (·.name))) =
        some [("aside", ["__input__"], ["kernel", "bias"]), ("end", ["aside"], ["kernel", "bias"]),
          ("used", ["__input__"], ["kernel", "bias"])] := by
    decide +kernel
  obtain ⟨t, ht, hrows⟩ := Option.map_eq_some_iff.mp hrun
  obtain ⟨m, hm, hbuild⟩ := Option.bind_eq_some_iff.mp ht
  have hm := toOption_eq_some.mp hm
  have hsame : t.model.form = m.form :=
    congrArg Model.form (build_model (toOption_eq_some.mp hbuild))
  obtain ⟨K, rest, hlayers, hK, hrest⟩ := List.map_eq_cons_iff.mp hrows
  obtain ⟨L, rest, rfl, hL, hrest⟩ := List.map_eq_cons_iff.mp hrest
  obtain ⟨last, rfl, hlast⟩ := List.map_eq_singleton_iff.mp hrest
  simp only [Prod.mk.injEq] at hK hL hlast
  have hfirst : t.model.layers[0]? = some K := by simp [hlayers]
  have hfeeds : ¬ t.model.FeedsResult K.id := by
    refine Model.not_feedsResult ["aside", "end"] ?_ ?_ (by simp [hK])
    · simp [hlayers, hlast]
    · simp [hlayers, hK, hL, hlast]
  exact ⟨_, m, t, K, hm, ht, hsame, hfirst, by rw [hK.1, hK.2.2], hfeeds,
    run_frame hm hsame .nobody hfirst hfeeds⟩

end Trainer

end BlockNet
