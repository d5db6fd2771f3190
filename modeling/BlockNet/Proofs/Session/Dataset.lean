import BlockNet.Proofs.Session.Runs

/-! # The dataset of a run

A session keeps the dataset that was loaded last, and every model names one of its own: at first
that of its data source, and after the start of a run the one that was loaded then. A run is set up
before its model is told, so its batches are those of the dataset that the model named before. -/

namespace BlockNet

theorem DatasetSpec.find_mem (name : Value) : (find name).1 ∈ stock.map (·.2) := by
  have hnamed : ∀ spec, named? name = some spec → spec ∈ stock.map (·.2) := by
    intro spec h
    obtain ⟨entry, hfind, rfl⟩ := Option.map_eq_some_iff.mp h
    exact List.mem_map_of_mem (List.mem_of_find?_eq_some hfind)
  cases name with
  | null => exact List.mem_cons_self
  | _ =>
      simp only [find]
      split
      · rename_i h
        exact hnamed _ h
      · exact List.mem_cons_self

/-- A dataset is found under its name. -/
theorem DatasetSpec.find_name {spec : DatasetSpec} (h : spec ∈ stock.map (·.2)) :
    (find (.text spec.name.plain)).1 = spec := by
  have hlower : ∀ key ∈ stock.map (·.1), key.map Char.toLower = key := by
    decide +kernel
  simp only [stock, List.map_cons, List.map_nil, List.mem_cons, List.not_mem_nil, or_false] at h
  obtain rfl | rfl | rfl | rfl := h <;>
    simp [find, named?, stock, mnist, cifar, iris, DatasetSpec.text, Value.plain, hlower]

namespace Session

/-- The dataset that a history has loaded last. -/
def loadedLast : List Act → Option DatasetSpec
  | [] => none
  | .load name :: _ => some (DatasetSpec.find name).1
  | _ :: past => loadedLast past

theorem loadedLast_mem {past : List Act} {d : DatasetSpec} (h : loadedLast past = some d) :
    d ∈ DatasetSpec.stock.map (·.2) := by
  fun_induction loadedLast past with
  | case1 => cases h
  | case2 name => exact Option.some.inj h ▸ DatasetSpec.find_mem name
  | case3 _ _ _ ih => exact ih h

theorem loadedLast_cons {past : List Act} {a : Act} (h : ∀ name, a ≠ .load name) :
    loadedLast (a :: past) = loadedLast past := by
  cases a with
  | load name => exact absurd rfl (h name)
  | _ => rfl

variable {α : Type} [Scalar α]

/-- The models that a history has compiled, as they were then. -/
def compiled (s : Session α) : List Act → List (Model α)
  | [] => []
  | a :: past => compiled s past ++ ((s.replay past).builds? a).toList

/-- The dataset that had been loaded when a run was opened on a model last. -/
def loadedAtOpening (s : Session α) (model : Nat) : List Act → Option DatasetSpec
  | [] => none
  | a :: past =>
      if (s.replay past).opensOn? a = some model then loadedLast past
      else loadedAtOpening s model past

/-- The dataset that a model names after a history: the one that had been loaded when a run was
opened on it last, or else that of its own data source. -/
def datasetAfter (s : Session α) (past : List Act) (model : Nat) : Option DatasetSpec :=
  (loadedAtOpening s model past).or ((compiled s past)[model]?.map Model.datasetSpec)

/-- What a history says of the session it leads to. -/
structure Recorded (s : Session α) (past : List Act) : Prop where
  dataset : ∀ d, (s.replay past).dataset = some d → loadedLast past = some d
  count : (compiled s past).length = (s.replay past).models.length
  unopened : ∀ j, (s.replay past).models.length ≤ j → loadedAtOpening s j past = none
  named : ∀ j m, (s.replay past).models[j]? = some m → datasetAfter s past j = some m.datasetSpec

variable {s : Session α} {past : List Act} {a : Act}

theorem compiled_cons (h : (s.replay past).builds? a = none) :
    compiled s (a :: past) = compiled s past := by
  rw [compiled, h]
  exact List.append_nil _

theorem loadedAtOpening_cons (h : (s.replay past).opensOn? a = none) (j : Nat) :
    loadedAtOpening s j (a :: past) = loadedAtOpening s j past := by
  rw [loadedAtOpening, h, if_neg (by rintro ⟨⟩)]

theorem datasetAfter_cons (hopens : (s.replay past).opensOn? a = none)
    (hbuilds : (s.replay past).builds? a = none) (j : Nat) :
    datasetAfter s (a :: past) j = datasetAfter s past j := by
  rw [datasetAfter, loadedAtOpening_cons hopens, compiled_cons hbuilds, datasetAfter]

/-- An act that opens a run neither compiles a model nor loads a dataset. -/
theorem opensOn?_eq_some {j : Nat} (h : s.opensOn? a = some j) :
    s.builds? a = none ∧ ∀ name, a ≠ .load name := by
  cases a with
  | openRun => exact ⟨rfl, by rintro _ ⟨⟩⟩
  | _ => cases h

namespace Recorded

theorem of_opened {run j : Nat} {d : DatasetSpec} {m : Model α} {t : Trainer α}
    (ih : Recorded s past) (hopens : (s.replay past).opensOn? a = some j)
    (h : Opened (s.replay past) ((s.replay past).act a) run j d m t) : Recorded s (a :: past) := by
  obtain ⟨hbuilds, hload⟩ := opensOn?_eq_some hopens
  have hloaded : loadedLast past = some d := ih.dataset d h.dataset
  have hother : ∀ k, k ≠ j → loadedAtOpening s k (a :: past) = loadedAtOpening s k past := by
    intro k hk
    rw [loadedAtOpening, hopens, if_neg fun h => hk (Option.some.inj h).symm]
  have hj := (List.getElem?_eq_some_iff.mp h.model).1
  refine ⟨?_, ?_, ?_, ?_⟩
  · intro d' hd'
    rw [loadedLast_cons hload]
    exact ih.dataset d' (h.loaded ▸ hd')
  · rw [compiled_cons hbuilds, ih.count, replay_cons, h.models, List.length_modify]
  · intro k hk
    rw [replay_cons, h.models, List.length_modify] at hk
    rw [hother k (by omega), ih.unopened k hk]
  · intro k m' hm'
    rw [replay_cons, h.models, List.getElem?_modify] at hm'
    by_cases hk : k = j
    -- the opening itself is the last one on this model, whatever the older history says of it
    · subst hk
      simp only [h.model, if_true] at hm'
      obtain rfl := Option.some.inj hm'
      rw [datasetAfter, loadedAtOpening, if_pos hopens, hloaded]
      exact congrArg some (DatasetSpec.find_name (loadedLast_mem hloaded)).symm
    · rw [datasetAfter, hother k hk, compiled_cons hbuilds]
      refine ih.named k m' ?_
      simpa [Ne.symm hk] using hm'

theorem of_built {m : Model α} (ih : Recorded s past)
    (hopens : (s.replay past).opensOn? a = none) (hbuilds : (s.replay past).builds? a = some m)
    (hmodels : ((s.replay past).act a).models = (s.replay past).models ++ [m])
    (hdataset : ((s.replay past).act a).dataset = (s.replay past).dataset) :
    Recorded s (a :: past) := by
  have hload : ∀ name, a ≠ .load name := by
    rintro name rfl
    cases hbuilds
  have hcompiled : compiled s (a :: past) = compiled s past ++ [m] := by
    rw [compiled, hbuilds]
    rfl
  refine ⟨?_, ?_, ?_, ?_⟩
  · intro d hd
    rw [loadedLast_cons hload]
    exact ih.dataset d (hdataset ▸ hd)
  · rw [hcompiled, replay_cons, hmodels, List.length_append, List.length_append, ih.count]
  · intro k hk
    rw [replay_cons, hmodels, List.length_append] at hk
    rw [loadedAtOpening_cons hopens, ih.unopened k (by omega)]
  · intro k m' hm'
    rw [replay_cons, hmodels] at hm'
    rw [datasetAfter, loadedAtOpening_cons hopens, hcompiled]
    by_cases hk : k < (s.replay past).models.length
    · rw [List.getElem?_append_left hk] at hm'
      rw [List.getElem?_append_left (ih.count ▸ hk)]
      exact ih.named k m' hm'
    · have hlast : k = (s.replay past).models.length := by
        have := (List.getElem?_eq_some_iff.mp hm').1
        rw [List.length_append, List.length_singleton] at this
        omega
      subst hlast
      rw [List.getElem?_concat_length] at hm'
      rw [ih.unopened _ (Nat.le_refl _), ← ih.count, List.getElem?_concat_length, hm']
      rfl

/-- An act that neither opens a run nor compiles a model. -/
theorem of_sameNames (ih : Recorded s past) (hopens : (s.replay past).opensOn? a = none)
    (hbuilds : (s.replay past).builds? a = none)
    (hnames : ((s.replay past).act a).models.map Model.datasetSpec =
      (s.replay past).models.map Model.datasetSpec)
    (hdataset : ∀ d, ((s.replay past).act a).dataset = some d → loadedLast (a :: past) = some d) :
    Recorded s (a :: past) := by
  have hlength : ((s.replay past).act a).models.length = (s.replay past).models.length := by
    simpa using congrArg List.length hnames
  refine ⟨hdataset, ?_, ?_, ?_⟩
  · rw [compiled_cons hbuilds, ih.count, replay_cons, hlength]
  · intro k hk
    rw [replay_cons, hlength] at hk
    rw [loadedAtOpening_cons hopens, ih.unopened k hk]
  · intro k m' hm'
    have hk := congrArg (·[k]?) hnames
    rw [replay_cons] at hm'
    simp only [List.getElem?_map, hm', Option.map_some] at hk
    obtain ⟨m, hm, hspec⟩ := Option.map_eq_some_iff.mp hk.symm
    rw [datasetAfter_cons hopens hbuilds, ih.named k m hm, hspec]

end Recorded

theorem recorded (catalog : Catalog) (seed : Value) (past : List Act) :
    Recorded (fresh (α := α) catalog seed) past := by
  induction past with
  | nil => exact ⟨by rintro _ ⟨⟩, rfl, fun _ _ => rfl, by rintro _ _ ⟨⟩⟩
  | cons a past ih =>
      obtain ⟨run, j, d, m, t, hopens, h⟩ | ⟨hopens, h⟩ :=
        act_names ((fresh (α := α) catalog seed).replay past) a
      · exact ih.of_opened hopens h
      · obtain ⟨m, hbuilds, hmodels, hdataset⟩ | ⟨hbuilds, h⟩ := h
        · exact ih.of_built hopens hbuilds hmodels hdataset
        · obtain ⟨name, rfl, hmodels, hdataset⟩ | ⟨hload, h⟩ := h
          · refine ih.of_sameNames hopens hbuilds (by rw [hmodels]) fun d hd => ?_
            rw [hdataset] at hd
            exact hd
          · refine ih.of_sameNames hopens hbuilds h.names fun d hd => ?_
            rw [loadedLast_cons hload]
            exact ih.dataset d (h.dataset d hd)

/-- A run draws its batches, whatever happens later, from the dataset that its model named before
the run was opened. -/
theorem openRun_drawsFrom {catalog : Catalog} {seed : Value} {past : List Act} {s' : Session α}
    {caller run : Nat} {config : Value} {pausing : Bool}
    (h : ((fresh catalog seed).replay past).openRun caller config pausing = (s', .ok run))
    (later : List Act) :
    ∃ j d spec r, ((fresh (α := α) catalog seed).replay past).current = some j ∧
      loadedLast past = some d ∧ datasetAfter (fresh (α := α) catalog seed) past j = some spec ∧
      (s'.replay later).runs[run]? = some r ∧ r.model = j ∧ r.trainer.DrawsFrom spec := by
  obtain ⟨j, d, m, t, hopened⟩ := openRun_eq_ok h
  have hrecorded := recorded (α := α) catalog seed past
  obtain ⟨r, hr, hmodel, hsource, hvalidation⟩ :=
    replay_runsKept s' later run ⟨t, j⟩ hopened.placed
  exact ⟨j, d, m.datasetSpec, r, hopened.current, hrecorded.dataset d hopened.dataset,
    hrecorded.named j m hopened.model, hr, hmodel, hopened.draws.congr hsource hvalidation⟩

/-- The batches of a run are those of the dataset loaded last just if its model named that one
before the run was opened. -/
theorem openRun_drawsFrom_loadedLast_iff (catalog : Catalog) (seed : Value) {past : List Act}
    {s' : Session α} {caller run : Nat} {config : Value} {pausing : Bool}
    (h : ((fresh catalog seed).replay past).openRun caller config pausing = (s', .ok run))
    (later : List Act) :
    ∃ j d spec r, ((fresh (α := α) catalog seed).replay past).current = some j ∧
      loadedLast past = some d ∧ datasetAfter (fresh (α := α) catalog seed) past j = some spec ∧
      (s'.replay later).runs[run]? = some r ∧ r.model = j ∧ r.trainer.DrawsFrom spec ∧
      (r.trainer.DrawsFrom d ↔ spec = d) := by
  obtain ⟨j, d, spec, r, hj, hd, hspec, hr, hmodel, hdraws⟩ := openRun_drawsFrom h later
  exact ⟨j, d, spec, r, hj, hd, hspec, hr, hmodel, hdraws, hdraws.unique, fun h => h ▸ hdraws⟩

/-! ## Flowers for a model without a data source -/

/-- Three classes told apart by four features. -/
def flowerGraph : Graph :=
  { nodes := [⟨"classes", "Dense", [(.text "units", .int 3)], .null, false, .null, []⟩]
    connections := [] }

/-- The flowers are loaded after the model has been compiled. -/
def flowerHistory : List Act :=
  [.load (.text "iris"), .build (.ok flowerGraph) (some (.sizes (.list [.int 4]))), .prepare]

/-- The session before the first run. -/
def flowerSession : Session Float := (fresh Stock.catalog (.int 0)).replay flowerHistory

/-- Nothing names a dataset in the model. -/
theorem flower_compiled :
    (compiled (fresh (α := Float) Stock.catalog (.int 0)) flowerHistory).map (·.dataset) = [none] := by
  decide +kernel

theorem flower_opens : ∃ s', flowerSession.openRun 0 .null false = (s', .ok 0) := by
  have hopens : (flowerSession.openRun 0 .null false).2.toOption = some 0 := by
    decide +kernel
  exact ⟨_, Prod.ext rfl (toOption_eq_some.mp hopens)⟩

theorem openRun_drawsFrom_loadedLast_iff_flowers :
    ∃ s', flowerSession.openRun 0 .null false = (s', .ok 0) ∧ ∃ j d spec r,
      flowerSession.current = some j ∧ loadedLast flowerHistory = some d ∧
      datasetAfter (fresh (α := Float) Stock.catalog (.int 0)) flowerHistory j = some spec ∧
      (s'.replay [.startRun 0]).runs[0]? = some r ∧ r.model = j ∧ r.trainer.DrawsFrom spec ∧
      (r.trainer.DrawsFrom d ↔ spec = d) := by
  obtain ⟨s', h⟩ := flower_opens
  exact ⟨s', h, openRun_drawsFrom_loadedLast_iff Stock.catalog (.int 0) h [.startRun 0]⟩

/-- The flowers are loaded, and the run draws its batches from images. -/
theorem flowers_drawn_from_mnist :
    ∃ s' r, flowerSession.openRun 0 .null false = (s', .ok 0) ∧
      loadedLast flowerHistory = some DatasetSpec.iris ∧ s'.runs[0]? = some r ∧
      r.trainer.DrawsFrom DatasetSpec.mnist ∧ ¬r.trainer.DrawsFrom DatasetSpec.iris := by
  obtain ⟨s', h⟩ := flower_opens
  obtain ⟨j, d, spec, r, hj, -, hspec, hr, -, hdraws⟩ := openRun_drawsFrom h []
  have hcurrent : flowerSession.current = some 0 := by
    decide +kernel
  obtain rfl := Option.some.inj (hj.symm.trans hcurrent)
  have hmnist : spec = DatasetSpec.mnist := by
    obtain ⟨m, hm, hnone⟩ := List.map_eq_singleton_iff.mp flower_compiled
    rw [datasetAfter, hm] at hspec
    rw [← Option.some.inj hspec, Model.datasetSpec, hnone]
    rfl
  have hne : DatasetSpec.mnist ≠ DatasetSpec.iris := fun h =>
    absurd (congrArg (fun d => d.name.plain) h) (by decide)
  have hfound : (DatasetSpec.find (.text "iris")).1 = DatasetSpec.iris :=
    @DatasetSpec.find_name DatasetSpec.iris (by simp [DatasetSpec.stock])
  subst hmnist
  exact ⟨s', r, h, congrArg some hfound, hr, hdraws, fun hiris => hne (hdraws.unique hiris)⟩

end Session

end BlockNet
