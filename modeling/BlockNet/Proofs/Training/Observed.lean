import BlockNet.Proofs.Training.Run
import BlockNet.Proofs.Twin
import BlockNet.Proofs.Watch.Account

/-! # Who looks on does not take part

A validation pass, a watcher of gradients, an audience and who follows a run look at the model in
training. None of them draws from the stream of the trainer or moves a weight, so two runs that
differ in nothing else train alike, epoch for epoch. -/

namespace BlockNet

variable {α : Type} [Scalar α]

/-! ## Learners -/

/-- The other learner has the same model, steps and stream; who watches and listens may differ. -/
def Learner.Beside (l l' : Learner α) : Prop :=
  ∃ watcher audience, l' = { l with watcher, audience }

namespace Learner.Beside

omit [Scalar α] in
theorem refl (l : Learner α) : l.Beside l := ⟨_, _, rfl⟩

omit [Scalar α] in
theorem symm {l l' : Learner α} (h : l.Beside l') : l'.Beside l := by
  obtain ⟨watcher, audience, rfl⟩ := h
  exact ⟨l.watcher, l.audience, rfl⟩

omit [Scalar α] in
theorem trans {l l' l'' : Learner α} (h : l.Beside l') (h' : l'.Beside l'') : l.Beside l'' := by
  obtain ⟨watcher, audience, rfl⟩ := h
  obtain ⟨watcher, audience, rfl⟩ := h'
  exact ⟨watcher, audience, rfl⟩

omit [Scalar α] in
theorem same {l l' : Learner α} (h : l.Beside l') :
    l'.generator = l.generator ∧ l'.model = l.model ∧ l'.optimizer = l.optimizer := by
  obtain ⟨watcher, audience, rfl⟩ := h
  exact ⟨rfl, rfl, rfl⟩

theorem learnFrom {l l' : Learner α} (h : l.Beside l') (r : Regime) (b : Batch α) (p : Pass α) :
    (l.learnFrom r b p).1.Beside (l'.learnFrom r b p).1 ∧
      (l'.learnFrom r b p).2 = (l.learnFrom r b p).2 := by
  obtain ⟨watcher, audience, rfl⟩ := h
  rw [Learner.learnFrom, Learner.learnFrom]
  dsimp only
  split
  · exact ⟨⟨_, _, rfl⟩, rfl⟩
  · exact ⟨⟨_, _, rfl⟩, rfl⟩
  · rename_i g _
    rw [Learner.descend, Learner.descend]
    dsimp only
    cases r.gradientLimit.mapM Number.toFloat with
    | error fault => exact ⟨⟨_, _, rfl⟩, rfl⟩
    | ok limit =>
        rw [ok_bind, ok_bind]
        cases l.optimizer.step r.rate (limit.elim g fun x => g.clipped (Scalar.ofFloat x)) l.model with
        | error fault => exact ⟨⟨_, _, rfl⟩, rfl⟩
        | ok moved => exact ⟨⟨_, _, rfl⟩, rfl⟩

theorem learn {l l' : Learner α} (h : l.Beside l') (r : Regime) (b : Batch α) :
    (l.learn r b).1.Beside (l'.learn r b).1 ∧ (l'.learn r b).2 = (l.learn r b).2 := by
  obtain ⟨watcher, audience, rfl⟩ := h
  rw [Learner.learn, Learner.learn]
  dsimp only
  cases b.feeds l.model with
  | error fault => exact ⟨⟨_, _, rfl⟩, rfl⟩
  | ok inputs => exact learnFrom ⟨_, _, rfl⟩ r b _

theorem learnAll {l l' : Learner α} (h : l.Beside l') (r : Regime) (e : Epoch α) (left : Nat)
    (sums : Totals α) (k : Nat) :
    (Learner.learnAll r e l sums left k).1.Beside (Learner.learnAll r e l' sums left k).1 ∧
      (Learner.learnAll r e l' sums left k).2 = (Learner.learnAll r e l sums left k).2 := by
  induction left generalizing l l' sums k with
  | zero => exact ⟨h, rfl⟩
  | succ left ih =>
      rw [Learner.learnAll, Learner.learnAll]
      cases e.batchAt k with
      | error fault => exact ⟨h, rfl⟩
      | ok b =>
          dsimp only
          have hlearn := h.learn r b
          generalize l.learn r b = x at hlearn ⊢
          generalize l'.learn r b = x' at hlearn ⊢
          rcases x with ⟨l₁, fault | totals⟩ <;> rcases x' with ⟨l₁', _⟩ <;>
            obtain ⟨hbeside, rfl⟩ := hlearn
          · exact ⟨hbeside, rfl⟩
          · exact ih hbeside _ _

end Learner.Beside

/-! ## What is written of an epoch -/

theorem Metrics.figureText_toFloat (layout : Float → String) (label : String) (figure : Option α) :
    ∃ text, Metrics.figureText layout label (fun x => .ok (Scalar.toFloat x)) figure = .ok text := by
  cases figure with
  | none => exact ⟨_, rfl⟩
  | some x => exact ⟨_, rfl⟩

/-- Figures that are numbers can be written. -/
theorem Metrics.text_toFloat (m : Metrics α) :
    ∃ text, m.text (fun x => .ok (Scalar.toFloat x)) = .ok text := by
  obtain ⟨loss, hloss⟩ := figureText_toFloat (Decimal.fixed 4) "loss" (some m.loss)
  obtain ⟨accuracy, haccuracy⟩ := figureText_toFloat (Decimal.fixed 4) "acc" (some m.accuracy)
  obtain ⟨vloss, hvloss⟩ := figureText_toFloat (Decimal.fixed 4) "val_loss" m.validationLoss
  obtain ⟨vacc, hvacc⟩ := figureText_toFloat (Decimal.fixed 4) "val_acc" m.validationAccuracy
  obtain ⟨rate, hrate⟩ := figureText_toFloat (Decimal.exponential 2) "lr" m.learningRate
  obtain ⟨norm, hnorm⟩ := figureText_toFloat (Decimal.exponential 4) "grad_norm" m.gradientNorm
  rw [Metrics.text, hloss, ok_bind, haccuracy, ok_bind, hvloss, ok_bind, hvacc, ok_bind, hrate,
    ok_bind, hnorm, ok_bind]
  exact ⟨_, rfl⟩

/-- The figures that come of training, without those of a validation. -/
def Metrics.trained {ν : Type} (m : Metrics ν) : Metrics ν :=
  { m with validationLoss := none, validationAccuracy := none }

/-- Who follows looks on: nothing that is told leads to a stop or a failure. -/
structure Follower.LooksOn {α : Type} (f : Follower α) : Prop where
  onEpoch : ∀ m learner, f.onEpoch m learner = ⟨false, none⟩
  onComplete : ∀ history learner, f.onComplete history learner = ⟨false, none⟩

/-- A record under names that are texts. -/
structure GradientRecord.Named {ν : Type} (r : GradientRecord ν) : Prop where
  name : ∃ s, r.name = .text s
  kind : ∃ s, r.kind = .text s

/-- A record whose figures are numbers can be written. -/
theorem GradientRecord.line_real {r : GradientRecord α} (h : r.Named) :
    ∃ line, (r.map fun x => Value.real (Scalar.toFloat x)).line = .ok line := by
  obtain ⟨⟨name, hname⟩, ⟨kind, hkind⟩⟩ := h
  have hratio : ∃ ratio,
      (r.map fun x => Value.real (Scalar.toFloat x)).updateRatio = .ok ratio := by
    rw [GradientRecord.updateRatio]
    split
    · exact ⟨_, rfl⟩
    · rename_i hweights
      have hnonzero : (Scalar.toFloat r.weightNorm == (0 : Float)) = false := by
        simpa [GradientRecord.map, Value.equal] using hweights
      refine ⟨Scalar.toFloat r.norm / Scalar.toFloat r.weightNorm, ?_⟩
      change Number.dividedBy (.real _) (.real _) = _
      simp only [Number.dividedBy, Number.integer?]
      change (if (Scalar.toFloat r.weightNorm == (0 : Float)) = true then _ else _) = _
      rw [hnonzero]
      rfl
  obtain ⟨ratio, hratio⟩ := hratio
  have hcolumns : (r.map fun x => Value.real (Scalar.toFloat x)).name = .text name ∧
      (r.map fun x => Value.real (Scalar.toFloat x)).kind = .text kind := ⟨hname, hkind⟩
  rw [GradientRecord.line, hcolumns.1, hcolumns.2, hratio]
  exact ⟨_, rfl⟩

theorem GradientSummary.listed_real (heading : String) {records : List (GradientRecord α)}
    (h : ∀ r ∈ records, r.Named) :
    ∃ lines, listed heading (records.map fun r => r.map fun x => Value.real (Scalar.toFloat x)) .null =
      .ok lines := by
  rw [listed]
  split
  · exact ⟨_, rfl⟩
  · have hline : ∀ v ∈ records.map fun r => r.map fun x => Value.real (Scalar.toFloat x),
        ∃ line, v.line = .ok line := by
      intro v hv
      obtain ⟨r, hr, rfl⟩ := List.mem_map.mp hv
      exact GradientRecord.line_real (h r hr)
    obtain ⟨lines, hlines⟩ := exists_mapM_eq_ok hline
    refine ⟨heading :: lines.map ("  " ++ ·), ?_⟩
    change ((records.map fun r => r.map fun x => Value.real (Scalar.toFloat x)).mapM
      GradientRecord.line >>= fun lines => _) = _
    rw [hlines]
    rfl

/-- The names of short gradients are among those of all. -/
theorem GradientSummary.vanishing_real {s : GradientSummary α} (hlayers : ∀ r ∈ s.layers, r.Named)
    (threshold : Float) : ∃ names, s.toValues.vanishing threshold = .ok names ∧
      ∀ v ∈ names, ∃ name, v = .text name := by
  have hstep : ∀ v ∈ s.toValues.layers, ∃ names,
      (do
        let norm ← orMishap .wrongType v.norm.number?
        .ok (if norm.lt (.real threshold) then [v.name] else []) : Outcome (List Value)) =
          .ok names ∧ ∀ v ∈ names, ∃ name, v = .text name := by
    intro v hv
    obtain ⟨r, hr, rfl⟩ := List.mem_map.mp hv
    obtain ⟨name, hname⟩ := (hlayers r hr).name
    refine ⟨_, rfl, fun v hv => ⟨name, ?_⟩⟩
    split at hv
    · rw [List.mem_singleton.mp hv]
      exact hname
    · cases hv
  obtain ⟨names, hnames⟩ := exists_mapM_eq_ok fun v hv => (hstep v hv).imp fun _ h => h.1
  refine ⟨names.flatten, by rw [vanishing, hnames]; rfl, fun v hv => ?_⟩
  obtain ⟨found, hfound, hv⟩ := List.mem_flatten.mp hv
  obtain ⟨r, hr, hstepr⟩ := exists_of_mem_mapM hnames hfound
  obtain ⟨found', hfound', hall⟩ := hstep r hr
  obtain rfl := Except.ok.inj (hstepr.symm.trans hfound')
  exact hall v hv

/-- A summary whose figures are numbers can be written. -/
theorem GradientSummary.text_toValues {s : GradientSummary α} (hlayers : ∀ r ∈ s.layers, r.Named)
    (hweights : ∀ r ∈ s.weights, r.Named) : ∃ text, s.toValues.text .null = .ok text := by
  obtain ⟨layers, hl⟩ := listed_real "Layer gradients:" hlayers
  obtain ⟨weights, hw⟩ := listed_real "Weight gradients:" hweights
  obtain ⟨names, hn, hnames⟩ := vanishing_real hlayers quiet
  change listed "Layer gradients:" s.toValues.layers .null = _ at hl
  change listed "Weight gradients:" s.toValues.weights .null = _ at hw
  have hlines : ∃ lines, s.toValues.lines .null = .ok lines := by
    rw [lines, hl, ok_bind, hw, ok_bind, hn, ok_bind]
    split
    · exact ⟨_, rfl⟩
    · have hlisted : ∀ v ∈ names, ∃ text, listedName v = .ok text := by
        intro v hv
        obtain ⟨name, rfl⟩ := hnames v hv
        exact ⟨name, rfl⟩
      obtain ⟨texts, htexts⟩ := exists_mapM_eq_ok hlisted
      rw [htexts]
      exact ⟨_, rfl⟩
  obtain ⟨lines, hlines⟩ := hlines
  exact ⟨_, by rw [text, hlines]; rfl⟩

theorem Watcher.collect_named (watched : List (Watched α)) (m : Model α) (count : Option Int) :
    ∀ r ∈ Watcher.collect watched m count, r.Named := by
  intro r hr
  obtain ⟨w, -, -, rfl⟩ := mem_collect hr
  exact ⟨⟨w.name, rfl⟩, ⟨w.kind, rfl⟩⟩

theorem Watcher.popSummary_text {w : Watcher α} {m : Model α} {count : Option Int}
    {s : GradientSummary α} (h : (w.popSummary m count).1 = some s) :
    ∃ text, s.toValues.text .null = .ok text := by
  rw [popSummary] at h
  have hweights : ∀ r ∈ if w.tracksWeights then collect w.weights m count else [], r.Named := by
    split
    · exact collect_named _ _ _
    · intro r hr
      cases hr
  generalize (if w.tracksWeights then collect w.weights m count else []) = weights at h hweights
  dsimp only at h
  split at h
  · cases h
  · obtain rfl := Option.some.inj h
    exact GradientSummary.text_toValues (collect_named _ _ _) hweights

namespace Trainer

/-- A watcher can be asked for its lines if the trainer counts them by a whole number, or not at
all. -/
theorem gradientLines_ok {t : Trainer α} (hcount : ∃ count, t.summaryCount.sliceCount = .ok count) :
    ∃ lines, t.gradientLines.2 = .ok lines := by
  obtain ⟨count, hcount⟩ := hcount
  rw [gradientLines, hcount]
  cases t.learner.watcher with
  | none => exact ⟨_, rfl⟩
  | some w =>
      dsimp only
      cases hsummary : (w.popSummary t.model count).1 with
      | none => exact ⟨_, rfl⟩
      | some s =>
          obtain ⟨text, htext⟩ := Watcher.popSummary_text hsummary
          exact ⟨Text.lines text, by rw [Option.elim_some, htext]; rfl⟩

/-! ## Trainers -/

/-- The other trainer is set up to train the same: its model, steps and stream are the same, it takes
the same batches, and its configuration may differ in the number of validation batches only. -/
structure Beside (t t' : Trainer α) : Prop where
  learner : t.learner.Beside t'.learner
  source : t'.source = t.source
  config : ∃ n, t'.config = { t.config with validationBatches := n }
  pausing : t'.pausing = t.pausing
  stopRequested : t'.stopRequested = t.stopRequested

/-- The validation pass of an epoch does not fail, if it comes to it. -/
def ValidatesIn (t : Trainer α) (epoch : Nat) : Prop :=
  ∀ rate u totals, t.config.learningRateAt (.whole epoch) = .ok rate →
    t.learnEpoch epoch rate = (u, .ok totals) → ∃ figures, u.validate.2 = .ok figures

namespace Beside

variable {t t' t'' : Trainer α}

omit [Scalar α] in
theorem refl (t : Trainer α) : t.Beside t := ⟨.refl _, rfl, ⟨_, rfl⟩, rfl, rfl⟩

omit [Scalar α] in
theorem symm (h : t.Beside t') : t'.Beside t := by
  obtain ⟨n, hconfig⟩ := h.config
  exact ⟨h.learner.symm, h.source.symm, ⟨t.config.validationBatches, by rw [hconfig]⟩,
    h.pausing.symm, h.stopRequested.symm⟩

omit [Scalar α] in
theorem trans (h : t.Beside t') (h' : t'.Beside t'') : t.Beside t'' := by
  obtain ⟨n, hconfig⟩ := h.config
  obtain ⟨n', hconfig'⟩ := h'.config
  exact ⟨h.learner.trans h'.learner, h'.source.trans h.source, ⟨n', by rw [hconfig', hconfig]⟩,
    h'.pausing.trans h.pausing, h'.stopRequested.trans h.stopRequested⟩

/-- A validation pass looks on. -/
theorem of_validate (t : Trainer α) : t.Beside t.validate.1 := by
  rw [Trainer.validate]
  split
  · exact .refl t
  · split
    · exact .refl t
    · exact ⟨⟨_, _, rfl⟩, rfl, ⟨_, rfl⟩, rfl, rfl⟩

/-- Asking a watcher for a summary changes nothing but the watcher. -/
theorem of_gradientLines (t : Trainer α) : t.Beside t.gradientLines.1 := by
  rw [gradientLines]
  split
  · exact .refl t
  · exact .refl t
  · exact ⟨⟨_, _, rfl⟩, rfl, ⟨_, rfl⟩, rfl, rfl⟩

/-- So does what is noted of an epoch that has been gone through. -/
theorem of_recordEpoch (t : Trainer α) (epoch : Nat) :
    (t.trainEpoch epoch).1.Beside (t.recordEpoch epoch).1.1 := by
  rw [recordEpoch]
  rcases t.trainEpoch epoch with ⟨u, fault | m⟩
  · exact .refl u
  · let kept : Trainer α := { u with history := u.history ++ [m] }
    have hkept : u.Beside kept := ⟨.refl _, rfl, ⟨_, rfl⟩, rfl, rfl⟩
    have hlines := hkept.trans (of_gradientLines kept)
    dsimp only
    split
    · exact hkept
    · rcases hasked : kept.gradientLines with ⟨v, fault | lines⟩
      all_goals
        rw [hasked] at hlines
        exact hlines

theorem learnEpoch (h : t.Beside t') (epoch : Nat) (rate : Number) :
    (t.learnEpoch epoch rate).1.Beside (t'.learnEpoch epoch rate).1 ∧
      (t'.learnEpoch epoch rate).2 = (t.learnEpoch epoch rate).2 := by
  obtain ⟨n, hconfig⟩ := h.config
  rw [Trainer.learnEpoch, Trainer.learnEpoch, h.source, hconfig]
  cases t.source.epoch (.int epoch) with
  | error fault => exact ⟨h, rfl⟩
  | ok batches =>
      dsimp only
      obtain ⟨hlearner, hsums⟩ := h.learner.learnAll
        ⟨t.config.loss, rate, t.config.gradientLimit⟩ batches batches.count Totals.zero 0
      exact ⟨⟨hlearner, rfl, ⟨n, rfl⟩, h.pausing, h.stopRequested⟩, by rw [hsums]⟩

/-- Beside each other two trainers go through an epoch alike, if no validation pass fails. -/
theorem trainEpoch (h : t.Beside t') {epoch : Nat} (hvalid : t.ValidatesIn epoch)
    (hvalid' : t'.ValidatesIn epoch) :
    (t.trainEpoch epoch).1.Beside (t'.trainEpoch epoch).1 ∧
      Twin Eq (fun m m' => m'.trained = m.trained) (t.trainEpoch epoch).2
        (t'.trainEpoch epoch).2 := by
  have hrate : t'.config.learningRateAt (.whole epoch) = t.config.learningRateAt (.whole epoch) := by
    obtain ⟨n, hconfig⟩ := h.config
    rw [hconfig]
    rfl
  rw [Trainer.trainEpoch, Trainer.trainEpoch, hrate]
  cases hlr : t.config.learningRateAt (.whole epoch) with
  | error fault => exact ⟨h, .error rfl⟩
  | ok rate =>
      dsimp only
      have hlearn := h.learnEpoch epoch rate
      have hfigures := hvalid rate
      have hfigures' := hvalid' rate
      rw [hlr] at hfigures
      rw [hrate, hlr] at hfigures'
      generalize t.learnEpoch epoch rate = x at hlearn hfigures ⊢
      generalize t'.learnEpoch epoch rate = x' at hlearn hfigures' ⊢
      rcases x with ⟨u, fault | totals⟩ <;> rcases x' with ⟨u', _⟩ <;>
        obtain ⟨hbeside, rfl⟩ := hlearn
      · exact ⟨hbeside, .error rfl⟩
      · obtain ⟨figures, hfigures⟩ := hfigures u totals rfl rfl
        obtain ⟨figures', hfigures'⟩ := hfigures' u' totals rfl rfl
        have hafter := (of_validate u).symm.trans (hbeside.trans (of_validate u'))
        dsimp only
        generalize u.validate = v at hafter hfigures ⊢
        generalize u'.validate = v' at hafter hfigures' ⊢
        obtain ⟨v, _⟩ := v
        obtain ⟨v', _⟩ := v'
        obtain rfl := hfigures
        obtain rfl := hfigures'
        refine ⟨hafter, ?_⟩
        dsimp only
        cases rate.toFloat with
        | error fault => exact .error rfl
        | ok x => exact .ok rfl

end Beside

omit [Scalar α] in
theorem beside_of_ofSources {m : Model α} {c : TrainingConfig} {n : Number} {source : Source α}
    {validation validation' : Option (Source α)} {watcher watcher' : Option (Watcher α)}
    {t t' : Trainer α} (h : ofSources m c source validation watcher = .ok t)
    (h' : ofSources m { c with validationBatches := n } source validation' watcher' = .ok t') :
    t.Beside t' := by
  obtain ⟨seed, hseed, h⟩ := bind_eq_ok.mp h
  obtain ⟨seed', hseed', h'⟩ := bind_eq_ok.mp h'
  obtain rfl := Except.ok.inj (hseed.symm.trans hseed')
  obtain rfl := Except.ok.inj h
  obtain rfl := Except.ok.inj h'
  exact ⟨⟨_, _, rfl⟩, rfl, ⟨n, rfl⟩, rfl, rfl⟩

omit [Scalar α] in
/-- The number of validation batches does not touch the training split. -/
theorem sourcesOf_train {m : Model α} {c : TrainingConfig} {n : Number} {source source' : Source α}
    {own own' : Option (Source α)} (h : (sourcesOf m c).1 = .ok (source, own))
    (h' : (sourcesOf m { c with validationBatches := n }).1 = .ok (source', own')) :
    source' = source := by
  obtain ⟨⟨train, valid⟩, hplans, h⟩ := map_eq_ok.mp h
  obtain ⟨⟨train', valid'⟩, hplans', h'⟩ := map_eq_ok.mp h'
  obtain ⟨_, htrain, hplans⟩ := bind_eq_ok.mp hplans
  obtain ⟨_, htrain', hplans'⟩ := bind_eq_ok.mp hplans'
  obtain ⟨_, -, hplans⟩ := bind_eq_ok.mp hplans
  obtain ⟨_, -, hplans'⟩ := bind_eq_ok.mp hplans'
  obtain ⟨rfl, -⟩ := Prod.mk.inj (Except.ok.inj hplans)
  obtain ⟨rfl, -⟩ := Prod.mk.inj (Except.ok.inj hplans')
  obtain rfl := Except.ok.inj (htrain.symm.trans htrain')
  rw [← (Prod.mk.inj h).1, ← (Prod.mk.inj h').1]

omit [Scalar α] in
/-- Trainers built for a model are beside each other, whatever number of validation batches their
configurations give and whatever validation batches and watcher are given. -/
theorem beside_of_build {m : Model α} {config config' : Value} {c : TrainingConfig} {n : Number}
    (hc : TrainingConfig.ofValue config = .ok c)
    (hc' : TrainingConfig.ofValue config' = .ok { c with validationBatches := n })
    {source validation validation' : Option (Source α)} {watcher watcher' : Option (Watcher α)}
    {t t' : Trainer α} (h : (build (some m) config source validation watcher).1 = .ok t)
    (h' : (build (some m) config' source validation' watcher').1 = .ok t') : t.Beside t' := by
  simp only [build, hc] at h
  simp only [build, hc'] at h'
  cases source with
  | some source => exact beside_of_ofSources h h'
  | none =>
      obtain ⟨⟨source, own⟩, hsources, h⟩ := bind_eq_ok.mp h
      obtain ⟨⟨source', own'⟩, hsources', h'⟩ := bind_eq_ok.mp h'
      obtain rfl := sourcesOf_train hsources hsources'
      exact beside_of_ofSources h h'

/-- Noting what has come of an epoch does not fail, so it fails only in itself. -/
theorem recordEpoch_trainEpoch {t : Trainer α}
    (hcount : ∃ count, t.summaryCount.sliceCount = .ok count) (epoch : Nat) :
    (t.recordEpoch epoch).2 = (t.trainEpoch epoch).2 := by
  obtain ⟨learner, htrain, -⟩ := t.trainEpoch_eq epoch
  rw [recordEpoch]
  generalize t.trainEpoch epoch = trained at htrain ⊢
  rcases trained with ⟨u, fault | m⟩
  · rfl
  · obtain rfl : u = _ := htrain
    obtain ⟨text, htext⟩ := m.text_toFloat
    obtain ⟨lines, hlines⟩ := gradientLines_ok
      (t := { t with learner, history := t.history ++ [m] }) hcount
    simp only [htext]
    generalize gradientLines { t with learner, history := t.history ++ [m] } = asked at hlines ⊢
    obtain ⟨v, _⟩ := asked
    obtain rfl := hlines
    rfl

/-- Trainers beside each other that have recorded the same of training. -/
structure Abreast (t t' : Trainer α) : Prop extends Beside t t' where
  count : ∃ count, t.summaryCount.sliceCount = .ok count
  count' : ∃ count, t'.summaryCount.sliceCount = .ok count
  history : t'.history.map Metrics.trained = t.history.map Metrics.trained

/-- Beside each other two trainers record an epoch alike, if no validation pass fails. -/
theorem Abreast.recordEpoch {t t' : Trainer α} (h : t.Abreast t') {epoch : Nat}
    (hvalid : t.ValidatesIn epoch) (hvalid' : t'.ValidatesIn epoch) :
    (t.recordEpoch epoch).1.1.Abreast (t'.recordEpoch epoch).1.1 ∧
      Twin Eq (fun m m' => m'.trained = m.trained) (t.recordEpoch epoch).2
        (t'.recordEpoch epoch).2 := by
  obtain ⟨htrain, hresult⟩ := h.toBeside.trainEpoch hvalid hvalid'
  have hbeside := (Beside.of_recordEpoch t epoch).symm.trans
    (htrain.trans (Beside.of_recordEpoch t' epoch))
  obtain ⟨learner, hrecord, -⟩ := t.recordEpoch_eq epoch
  obtain ⟨learner', hrecord', -⟩ := t'.recordEpoch_eq epoch
  rw [recordEpoch_trainEpoch h.count, recordEpoch_trainEpoch h.count']
  refine ⟨⟨hbeside, hrecord ▸ h.count, hrecord' ▸ h.count', ?_⟩, hresult⟩
  rw [hrecord, hrecord', List.map_append, List.map_append, h.history]
  congr 1
  generalize (t.trainEpoch epoch).2 = x at hresult ⊢
  generalize (t'.trainEpoch epoch).2 = x' at hresult ⊢
  cases hresult with
  | error => rfl
  | ok hm => simp [Except.toOption, hm]

/-! ## Runs -/

/-- The states that a run comes to before its epochs. -/
inductive Reaches (t : Trainer α) (f : Follower α) : Nat → Noted α → Prop
  | start : Reaches t f 1 ⟨t.begun, [t.begun.startNote], []⟩
  | epoch {e : Nat} {s s' : Noted α} (h : Reaches t f e s) (hstop : s.trainer.stopRequested = false)
      (htell : tellEpoch f e s = (s', none)) : Reaches t f (e + 1) s'

/-- No validation pass of a run fails. -/
def Validates (t : Trainer α) (f : Follower α) : Prop :=
  ∀ n e s, t.config.epochCount = .ok n → e ≤ n → Reaches t f e s →
    s.trainer.stopRequested = false → (s.trainer.heed (f.meanwhile e)).ValidatesIn e

variable {t t' : Trainer α} {f f' : Follower α}

omit [Scalar α] in
theorem Abreast.heed (h : t.Abreast t') (stops : Bool) : (t.heed stops).Abreast (t'.heed stops) := by
  refine ⟨⟨h.learner, h.source, h.config, h.pausing, ?_⟩, h.count, h.count', h.history⟩
  simp [Trainer.heed, h.stopRequested]

omit [Scalar α] in
theorem Abreast.pauseAfter (h : t.Abreast t') (epoch : Nat) :
    t'.pauseAfter epoch = t.pauseAfter epoch := by
  obtain ⟨n, hconfig⟩ := h.config
  rw [Trainer.pauseAfter, Trainer.pauseAfter, h.pausing, hconfig]

theorem Abreast.tellEpoch {s s' : Noted α} (h : s.trainer.Abreast s'.trainer) (hf : f.LooksOn)
    (hf' : f'.LooksOn) (hmeanwhile : f'.meanwhile = f.meanwhile) {epoch : Nat}
    (hvalid : (s.trainer.heed (f.meanwhile epoch)).ValidatesIn epoch)
    (hvalid' : (s'.trainer.heed (f'.meanwhile epoch)).ValidatesIn epoch) :
    (tellEpoch f epoch s).1.trainer.Abreast (tellEpoch f' epoch s').1.trainer ∧
      (tellEpoch f' epoch s').2 = (tellEpoch f epoch s).2 := by
  rw [hmeanwhile] at hvalid'
  obtain ⟨habreast, hresult⟩ := (h.heed (f.meanwhile epoch)).recordEpoch hvalid hvalid'
  rw [Trainer.tellEpoch, Trainer.tellEpoch, hmeanwhile]
  generalize (s.trainer.heed (f.meanwhile epoch)).recordEpoch epoch = x at habreast hresult ⊢
  generalize (s'.trainer.heed (f.meanwhile epoch)).recordEpoch epoch = x' at habreast hresult ⊢
  obtain ⟨⟨u, log⟩, x⟩ := x
  obtain ⟨⟨u', log'⟩, x'⟩ := x'
  cases hresult with
  | error hfault => exact ⟨habreast, congrArg some hfault.symm⟩
  | ok hm =>
      simp only [hf.onEpoch, hf'.onEpoch]
      exact ⟨habreast.heed false, congrArg (Option.or none) (habreast.pauseAfter epoch)⟩

theorem Abreast.tellEpochs {n : Nat} (hf : f.LooksOn) (hf' : f'.LooksOn)
    (hmeanwhile : f'.meanwhile = f.meanwhile) (hvalid : Validates t f) (hvalid' : Validates t' f')
    (hcount : t.config.epochCount = .ok n) (hcount' : t'.config.epochCount = .ok n) (left e : Nat)
    {s s' : Noted α} (h : s.trainer.Abreast s'.trainer) (hs : Reaches t f e s)
    (hs' : Reaches t' f' e s') (hleft : e + left = n + 1) :
    (tellEpochs f left e s).1.trainer.Abreast (tellEpochs f' left e s').1.trainer ∧
      (tellEpochs f' left e s').2 = (tellEpochs f left e s).2 := by
  induction left generalizing e s s' with
  | zero => exact ⟨h, rfl⟩
  | succ left ih =>
      rw [Trainer.tellEpochs, Trainer.tellEpochs, throughEpochs, throughEpochs, h.stopRequested]
      by_cases hstop : s.trainer.stopRequested = true
      · rw [if_pos hstop, if_pos hstop]
        exact ⟨h, rfl⟩
      · have hgoing : s.trainer.stopRequested = false := Bool.eq_false_iff.mpr hstop
        have hgoing' : s'.trainer.stopRequested = false := h.stopRequested.trans hgoing
        rw [if_neg hstop, if_neg hstop]
        obtain ⟨habreast, hresult⟩ := h.tellEpoch hf hf' hmeanwhile
          (hvalid n e s hcount (by omega) hs hgoing)
          (hvalid' n e s' hcount' (by omega) hs' hgoing')
        rcases htell : Trainer.tellEpoch f e s with ⟨u, _ | fault⟩ <;>
          rcases htell' : Trainer.tellEpoch f' e s' with ⟨u', result'⟩ <;>
          rw [htell, htell'] at habreast hresult <;> obtain rfl := hresult
        · exact ih (e + 1) habreast (hs.epoch hgoing htell) (hs'.epoch hgoing' htell') (by omega)
        · exact ⟨habreast, rfl⟩

/-- Two runs train alike that differ in nothing but the validation, the watcher of gradients, the
audience and who looks on, if no validation pass fails: they come to the same figures of training,
or to the same fault, and leave the same stream, weights and steps. -/
theorem run_observed (h : t.Beside t') (hidle : t.running = false) (hidle' : t'.running = false)
    (hlines : ∃ count, t.summaryCount.sliceCount = .ok count)
    (hlines' : ∃ count, t'.summaryCount.sliceCount = .ok count) (hf : f.LooksOn) (hf' : f'.LooksOn)
    (hmeanwhile : f'.meanwhile = f.meanwhile) (hvalid : Validates t f) (hvalid' : Validates t' f') :
    Twin Eq (fun history history' => history'.map Metrics.trained = history.map Metrics.trained)
      (t.run f).2 (t'.run f').2 ∧
    (t'.run f').1.trainer.history.map Metrics.trained =
      (t.run f).1.trainer.history.map Metrics.trained ∧
    (t'.run f').1.trainer.learner.generator = (t.run f).1.trainer.learner.generator ∧
    (t'.run f').1.trainer.model = (t.run f).1.trainer.model ∧
    (t'.run f').1.trainer.learner.optimizer = (t.run f).1.trainer.learner.optimizer := by
  have hbegun : t.begun.Abreast t'.begun :=
    ⟨⟨h.learner, h.source, h.config, h.pausing, h.stopRequested⟩, hlines, hlines', rfl⟩
  have hcount : t'.config.epochCount = t.config.epochCount := by
    obtain ⟨n, hconfig⟩ := h.config
    rw [hconfig]
    rfl
  cases hn : t.config.epochCount with
  | error fault =>
      rw [hn] at hcount
      rw [run_eq_error hidle hn, run_eq_error hidle' hcount]
      exact ⟨.error rfl, rfl, hbegun.learner.same⟩
  | ok n =>
      rw [hn] at hcount
      obtain ⟨habreast, hresult⟩ := Abreast.tellEpochs hf hf' hmeanwhile hvalid hvalid' hn hcount n 1
        hbegun .start .start (by omega)
      rw [run_eq hidle hn, run_eq hidle' hcount]
      generalize Trainer.tellEpochs f n 1 ⟨t.begun, [t.begun.startNote], []⟩ = x
        at habreast hresult ⊢
      generalize Trainer.tellEpochs f' n 1 ⟨t'.begun, [t'.begun.startNote], []⟩ = x'
        at habreast hresult ⊢
      obtain ⟨s, result⟩ := x
      obtain ⟨s', result'⟩ := x'
      obtain rfl : result' = result := hresult
      cases result' with
      | some fault => exact ⟨.error rfl, habreast.history, habreast.learner.same⟩
      | none =>
          simp only [complete, hf.onComplete, hf'.onComplete]
          exact ⟨.ok habreast.history, habreast.history, habreast.learner.same⟩

/-- The states that a run comes to which nobody asks to stop are those after its first epochs. -/
theorem Reaches.trainer_eq (hf : f.LooksOn) (hmeanwhile : ∀ epoch, f.meanwhile epoch = false)
    {k : Nat} {s : Noted α} (h : Reaches t f k s) :
    ∃ e, k = e + 1 ∧ s.trainer = t.begun.afterEpochs e := by
  induction h with
  | start => exact ⟨0, rfl, rfl⟩
  | epoch h hstop htell ih =>
      rename_i s s'
      obtain ⟨e, rfl, hs⟩ := ih
      refine ⟨e + 1, rfl, ?_⟩
      have hsame : ∀ u : Trainer α, u.heed false = u := fun u => by simp [heed]
      rw [tellEpoch, hmeanwhile, hsame, hs] at htell
      rw [afterEpochs]
      generalize (t.begun.afterEpochs e).recordEpoch (e + 1) = recorded at htell ⊢
      rcases recorded with ⟨⟨u, log⟩, fault | m⟩
      · cases htell
      · simp only [hf.onEpoch, hsame] at htell
        rw [← (Prod.mk.inj htell).1]

/-- Does the validation pass of an epoch give figures? -/
def validatesIn (t : Trainer α) (epoch : Nat) : Bool :=
  match t.config.learningRateAt (.whole epoch) with
  | .error _ => true
  | .ok rate => (t.learnEpoch epoch rate).1.validate.2.isOk

theorem validatesIn_spec {epoch : Nat} (h : t.validatesIn epoch = true) : t.ValidatesIn epoch := by
  intro rate u totals hrate hlearn
  simp only [validatesIn, hrate, hlearn] at h
  cases hfigures : u.validate.2 with
  | error fault =>
      rw [hfigures] at h
      cases h
  | ok figures => exact ⟨figures, rfl⟩

/-- The trainer with a watcher, of which no lines are asked for, a validation batch and a trace that
listens. -/
def pairObserved (t : Trainer Float) : Trainer Float :=
  { t with
    validation := some (.fixed [pairBatch])
    config := { t.config with validationBatches := .whole 7 }
    summaryCount := .int 0
    learner := { t.learner with
      watcher := some (Watcher.ofModel t.model true)
      audience := (Audience.silent 1).start 0 } }

omit [Scalar α] in
theorem nobody_looksOn : (Follower.nobody : Follower α).LooksOn :=
  ⟨fun _ _ => rfl, fun _ _ => rfl⟩

theorem validates_of_checked {n : Nat} (hcount : t.config.epochCount = .ok n)
    (h : ((List.range n).all fun e => (t.begun.afterEpochs e).validatesIn (e + 1)) = true) :
    Validates t .nobody := by
  intro n' k s hn hk hs hstop
  obtain rfl := Except.ok.inj (hcount.symm.trans hn)
  obtain ⟨e, rfl, htrainer⟩ := hs.trainer_eq nobody_looksOn fun _ => rfl
  have hsame : s.trainer.heed false = s.trainer := by simp [heed]
  change (s.trainer.heed false).ValidatesIn (e + 1)
  rw [hsame, htrainer]
  exact validatesIn_spec (List.all_eq_true.mp h e (List.mem_range.mpr hk))

theorem run_observed_pair : ∃ t, pairTrainer? = some t ∧ t.Beside (pairObserved t) ∧
    t.running = false ∧ (pairObserved t).running = false ∧
    (∃ count, t.summaryCount.sliceCount = .ok count) ∧
    (∃ count, (pairObserved t).summaryCount.sliceCount = .ok count) ∧
    (Follower.nobody : Follower Float).LooksOn ∧ Validates t .nobody ∧
    Validates (pairObserved t) .nobody ∧
    Twin Eq (fun history history' => history'.map Metrics.trained = history.map Metrics.trained)
      (t.run .nobody).2 ((pairObserved t).run .nobody).2 ∧
    ((pairObserved t).run .nobody).1.trainer.model = (t.run .nobody).1.trainer.model := by
  have hrun : (pairTrainer?.map fun t => (t.running, t.config.epochCount.toOption,
      t.summaryCount.sliceCount.toOption,
      (List.range 3).all fun e => (t.begun.afterEpochs e).validatesIn (e + 1),
      (List.range 3).all fun e => ((pairObserved t).begun.afterEpochs e).validatesIn (e + 1))) =
        some (false, some 3, some (some 5), true, true) := by
    decide +kernel
  obtain ⟨t, ht, hfacts⟩ := Option.map_eq_some_iff.mp hrun
  simp only [Prod.mk.injEq] at hfacts
  obtain ⟨hidle, hcount, hlines, hchecked, hchecked'⟩ := hfacts
  have hepochs := toOption_eq_some.mp hcount
  have hbeside : t.Beside (pairObserved t) := ⟨⟨_, _, rfl⟩, rfl, ⟨_, rfl⟩, rfl, rfl⟩
  have hlines₁ : ∃ count, t.summaryCount.sliceCount = .ok count := ⟨_, toOption_eq_some.mp hlines⟩
  have hlines₂ : ∃ count, (pairObserved t).summaryCount.sliceCount = .ok count := ⟨_, rfl⟩
  have hvalid := validates_of_checked hepochs hchecked
  have hvalid' := validates_of_checked (t := pairObserved t) hepochs hchecked'
  obtain ⟨hgiven, -, -, hmodel, -⟩ := run_observed hbeside hidle hidle hlines₁ hlines₂
    nobody_looksOn nobody_looksOn rfl hvalid hvalid'
  exact ⟨t, ht, hbeside, hidle, hidle, hlines₁, hlines₂, nobody_looksOn, hvalid, hvalid', hgiven,
    hmodel⟩

end Trainer

end BlockNet
