import Mathlib.Algebra.GroupWithZero.Nat
import Mathlib.Algebra.Order.BigOperators.Group.List
import Mathlib.Algebra.Order.Group.Nat
import Mathlib.Data.List.Induction
import BlockNet.Proofs.Compilation.Keys
import BlockNet.Watch.Watcher

/-! # The account of a watcher

What a watcher holds depends on the reports since its last summary alone, and it accounts for all of
them: a layer has as many steps as it has had complete passes, whatever came before. -/

namespace BlockNet

variable {α : Type}

theorem upTo_subset {β : Type} (n : Option Int) (items : List β) : upTo n items ⊆ items := by
  match n with
  | none => exact List.Subset.refl items
  | some (.ofNat n) => exact List.take_subset n items
  | some (.negSucc n) => exact List.take_subset _ items

/-! ## The weights that report -/

/-- The weights of the layer that report gradients, under their keys. -/
def Layer.reporters (l : Layer α) : List (String × Tensor α) :=
  (l.weights.filter (·.trainable)).map fun w => (l.weightKey w, w.tensor)

/-- The reports of the weights of the layer. -/
def Layer.reportsIn (l : Layer α) (g : Gradient α) : Gradient α :=
  g.filter fun e => (Watcher.trainableKeys l).contains e.1

/-- Each weight of the layer that can be trained reports once, in any order, and each a gradient
along its own axes. -/
def Layer.Complete (l : Layer α) (g : Gradient α) : Prop :=
  ((l.reportsIn g).map fun e => (e.1, e.2.dims)).Perm (l.reporters.map fun e => (e.1, e.2.dims))

instance (l : Layer α) (g : Gradient α) : Decidable (l.Complete g) :=
  inferInstanceAs (Decidable (List.Perm _ _))

namespace Layer

variable {l : Layer α}

theorem map_fst_reporters (l : Layer α) : l.reporters.map (·.1) = Watcher.trainableKeys l := by
  simp [reporters, Watcher.trainableKeys, Function.comp_def]

@[simp]
theorem length_reporters (l : Layer α) :
    l.reporters.length = (Watcher.trainableKeys l).length := by
  rw [← map_fst_reporters, List.length_map]

/-- What is added up over the reports of passes is added up pass by pass. -/
theorem sum_reportsIn_flatten {M : Type} [AddMonoid M] (f : String × Tensor α → M)
    (passes : List (Gradient α)) : ((l.reportsIn passes.flatten).map f).sum =
      (passes.map fun p => ((l.reportsIn p).map f).sum).sum := by
  rw [reportsIn, List.filter_flatten, List.map_flatten, List.sum_flatten, List.map_map,
    List.map_map]
  rfl

section Passes

variable {passes : List (Gradient α)} (h : ∀ p ∈ passes, l.Complete p)

include h

/-- Complete passes report as often as the layer has weights. -/
theorem length_reportsIn_flatten :
    (l.reportsIn passes.flatten).length = passes.length * l.reporters.length := by
  have hlength : ∀ p ∈ passes, ((l.reportsIn p).map fun _ => 1).sum = l.reporters.length := by
    intro p hp
    simpa using List.Perm.length_eq (h p hp)
  have hsum := sum_reportsIn_flatten (l := l) (fun _ => 1) passes
  rw [List.map_congr_left hlength] at hsum
  simpa using hsum

/-- Complete passes report as many entries as the weights of the layer have. -/
theorem sum_size_reportsIn_flatten :
    ((l.reportsIn passes.flatten).map (·.2.size)).sum =
      passes.length * (l.reporters.map (·.2.size)).sum := by
  have hsize : ∀ p ∈ passes,
      ((l.reportsIn p).map (·.2.size)).sum = (l.reporters.map (·.2.size)).sum := by
    intro p hp
    simpa [Function.comp_def, Tensor.size] using
      (List.Perm.map (fun e => volume e.2) (h p hp)).sum_eq
  rw [sum_reportsIn_flatten, List.map_congr_left hsize, List.map_const', List.sum_replicate_nat]

end Passes

end Layer

/-- The weights of all layers that report gradients. -/
def Model.reporters (m : Model α) : List (String × Tensor α) := m.layers.flatMap Layer.reporters

/-- Only its own weights report to a layer, where keys tell weights apart. -/
theorem Model.reportsIn_reporters {m : Model α} (hkeys : (m.weights.map (·.1)).Nodup) {l : Layer α}
    (hl : l ∈ m.layers) : l.reportsIn m.reporters = l.reporters := by
  have hfilter : m.reporters = (m.weights.filter (·.2.trainable)).map fun e => (e.1, e.2.tensor) := by
    simp only [Model.weights, List.filter_flatMap, List.map_flatMap, List.filter_map, List.map_map]
    rfl
  have hnodup : (m.reporters.map (·.1)).Nodup := by
    rw [hfilter, List.map_map]
    exact (List.filter_sublist.map _).nodup hkeys
  obtain ⟨earlier, later, hsplit⟩ := List.append_of_mem hl
  rw [Model.reporters, hsplit, List.flatMap_append, List.flatMap_cons] at hnodup ⊢
  simp only [List.map_append, List.nodup_append, List.mem_append, Layer.map_fst_reporters] at hnodup
  obtain ⟨-, ⟨-, -, hlater⟩, hearlier⟩ := hnodup
  have hfront : l.reportsIn (earlier.flatMap Layer.reporters) = [] := by
    refine List.filter_eq_nil_iff.mpr fun e he hown => ?_
    exact hearlier _ (List.mem_map_of_mem he) _ (.inl (List.contains_iff_mem.mp hown)) rfl
  have hback : l.reportsIn (later.flatMap Layer.reporters) = [] := by
    refine List.filter_eq_nil_iff.mpr fun e he hown => ?_
    exact hlater _ (List.contains_iff_mem.mp hown) _ (List.mem_map_of_mem he) rfl
  have hself : l.reportsIn l.reporters = l.reporters := by
    refine List.filter_eq_self.mpr fun e he => List.contains_iff_mem.mpr ?_
    exact l.map_fst_reporters ▸ List.mem_map_of_mem he
  rw [Layer.reportsIn, List.filter_append, List.filter_append]
  change l.reportsIn _ ++ (l.reportsIn _ ++ l.reportsIn _) = _
  rw [hfront, hself, hback, List.nil_append, List.append_nil]

/-- Where keys tell weights apart, a pass in which every weight of the model reports once is complete
for each of its layers. -/
theorem Model.complete_of_perm {m : Model α} (hkeys : (m.weights.map (·.1)).Nodup)
    {g : Gradient α} (hg : (g.map fun e => (e.1, e.2.dims)).Perm
      (m.reporters.map fun e => (e.1, e.2.dims)))
    {l : Layer α} (hl : l ∈ m.layers) : l.Complete g := by
  have hfiltered := hg.filter fun e => (Watcher.trainableKeys l).contains e.1
  rw [List.filter_map, List.filter_map] at hfiltered
  rw [Layer.Complete, ← Model.reportsIn_reporters hkeys hl]
  exact hfiltered

/-- So it is in a compiled model. -/
theorem Compilation.Compiled.complete [Scalar α] {catalog : Catalog} {graph : Graph} {m : Model α}
    (h : Compiled catalog graph m) {g : Gradient α}
    (hg : (g.map fun e => (e.1, e.2.dims)).Perm (m.reporters.map fun e => (e.1, e.2.dims)))
    {l : Layer α} (hl : l ∈ m.layers) : l.Complete g :=
  Model.complete_of_perm h.nodup_keys hg hl

namespace Watched

variable [Scalar α] {v : Watched α} {g : Gradient α}

/-! ## Reports to a layer -/

/-- The layer or weight after reports, of which only those of its own weights count. -/
def heard (v : Watched α) (g : Gradient α) : Watched α :=
  g.foldl (fun v (key, slope) => v.report key slope) v

@[simp]
theorem heard_concat (v : Watched α) (g : Gradient α) (e : String × Tensor α) :
    v.heard (g ++ [e]) = (v.heard g).report e.1 e.2 := by
  simp [heard]

@[simp]
theorem report_name (v : Watched α) (key : String) (t : Tensor α) :
    (v.report key t).name = v.name := by
  grind [report]

@[simp]
theorem report_weights (v : Watched α) (key : String) (t : Tensor α) :
    (v.report key t).weights = v.weights := by
  grind [report]

@[simp]
theorem report_reset (v : Watched α) (key : String) (t : Tensor α) :
    (v.report key t).reset = v.reset := by
  grind [report, reset]

/-- What no report changes stays the same. -/
theorem heard_keeps {β : Type} {f : Watched α → β}
    (h : ∀ (v : Watched α) (key : String) (t : Tensor α), f (v.report key t) = f v)
    (v : Watched α) (g : Gradient α) : f (v.heard g) = f v := by
  induction g using List.reverseRecOn with
  | nil => rfl
  | append_singleton g e ih => rw [heard_concat, h, ih]

@[simp]
theorem heard_name (v : Watched α) (g : Gradient α) : (v.heard g).name = v.name :=
  heard_keeps report_name v g

@[simp]
theorem heard_weights (v : Watched α) (g : Gradient α) : (v.heard g).weights = v.weights :=
  heard_keeps report_weights v g

/-- The layer or weight accounts for reports of its own weights: they make up its steps and what has
come in of the running one, and all their entries are counted. -/
structure Accounts (v : Watched α) (g : Gradient α) : Prop where
  reports : g.length = v.tally.steps * v.weights.length + v.reported
  pending : v.reported < v.weights.length
  entries : v.tally.entries = (g.map (·.2.size)).sum
  zeros : v.tally.zeros = (g.map fun e => e.2.entries.countP (Scalar.same 0)).sum

theorem Accounts.start (hfresh : v.reset = v) (hweights : v.weights ≠ []) : v.Accounts [] := by
  have hpending := List.length_pos_iff.mpr hweights
  rw [← hfresh]
  constructor <;> simp [Watched.reset, Tally.empty, hpending]

/-- One report of a weight of its own is one more that is accounted for. -/
theorem Accounts.report (h : v.Accounts g) {key : String} (hkey : key ∈ v.weights) (t : Tensor α) :
    (v.report key t).Accounts (g ++ [(key, t)]) := by
  have hsteps : (v.tally.add t).steps = v.tally.steps := by grind [Tally.add]
  have hentries : (v.tally.add t).entries = v.tally.entries + t.size := by grind [Tally.add]
  have hzeros : (v.tally.add t).zeros = v.tally.zeros + t.entries.countP (Scalar.same 0) := by
    by_cases hsize : t.size = 0
    · have hnone : t.entries = #[] := Array.size_eq_zero_iff.mp (t.size_eq.trans hsize)
      simp [Tally.add, hsize, hnone]
    · simp [Tally.add, hsize]
  have hreports := h.reports
  have hpending := h.pending
  rw [Watched.report]
  -- The report of the last weight that is missing ends the step, any other one stays pending.
  by_cases hlast : v.reported + 1 = v.weights.length
  · constructor
    case reports =>
      simp [hkey, hlast, hsteps, Nat.succ_mul]
      omega
    case pending => simpa [hkey, hlast] using Nat.zero_lt_of_lt hpending
    case entries => simp [hkey, hlast, hentries, h.entries]
    case zeros => simp [hkey, hlast, hzeros, h.zeros]
  · constructor
    case reports =>
      simp [hkey, hlast, hsteps]
      omega
    case pending =>
      simp [hkey, hlast]
      omega
    case entries => simp [hkey, hlast, hentries, h.entries]
    case zeros => simp [hkey, hlast, hzeros, h.zeros]

/-- All reports of its own weights are accounted for, in whatever order they come in. -/
theorem accounts_heard (hfresh : v.reset = v) (hweights : v.weights ≠ []) (g : Gradient α) :
    (v.heard g).Accounts (g.filter fun e => v.weights.contains e.1) := by
  induction g using List.reverseRecOn with
  | nil => exact .start hfresh hweights
  | append_singleton g e ih =>
      rw [heard_concat, List.filter_append]
      by_cases hkey : e.1 ∈ v.weights
      · simpa [hkey] using ih.report (v := v.heard g) (by simpa using hkey) e.2
      · simpa [Watched.report, hkey] using ih

theorem Accounts.zeros_le (h : v.Accounts g) : v.tally.zeros ≤ v.tally.entries := by
  rw [h.entries, h.zeros]
  refine List.sum_le_sum fun e _ => ?_
  exact Array.countP_le_size.trans_eq e.2.size_eq

/-- After as many reports as its weights give in a number of passes, a layer is as many steps
further. -/
theorem Accounts.of_passes (h : v.Accounts g) {n : Nat} (hlength : g.length = n * v.weights.length) :
    v.tally.steps = n ∧ v.reported = 0 := by
  have hreports := h.reports.symm.trans hlength
  have hreported : v.reported = 0 := by
    have hrest := congrArg (· % v.weights.length) hreports
    simpa [Nat.mod_eq_of_lt h.pending] using hrest
  rw [hreported, Nat.add_zero] at hreports
  exact ⟨Nat.eq_of_mul_eq_mul_right (Nat.zero_lt_of_lt h.pending) hreports, hreported⟩

end Watched

namespace Watcher

variable [Scalar α]

/-! ## What a watcher goes through -/

/-- A weight reports, a summary is taken of the model as it then stands, or all is forgotten. -/
inductive Move (α : Type)
  | report (key : String) (slope : Tensor α)
  | pop (m : Model α) (count : Option Int)
  | reset

/-- The watcher after a move. -/
def move (w : Watcher α) : Move α → Watcher α
  | .report key slope => w.report key slope
  | .pop m count => (w.popSummary m count).2
  | .reset => w.reset

/-- The watcher after moves. -/
def after (w : Watcher α) (moves : List (Move α)) : Watcher α := moves.foldl move w

/-- What was reported since everything was last forgotten. -/
def sinceReset (moves : List (Move α)) : Gradient α :=
  moves.foldl
    (fun seen mv => match mv with
      | .report key slope => seen ++ [(key, slope)]
      | .pop _ _ | .reset => [])
    []

@[simp]
theorem after_concat (w : Watcher α) (moves : List (Move α)) (mv : Move α) :
    w.after (moves ++ [mv]) = (w.after moves).move mv := by
  simp [after]

@[simp]
theorem observe_concat (w : Watcher α) (g : Gradient α) (e : String × Tensor α) :
    w.observe (g ++ [e]) = (w.observe g).report e.1 e.2 := by
  simp [observe]

theorem report_reset (w : Watcher α) (key : String) (t : Tensor α) :
    (w.report key t).reset = w.reset := by
  by_cases htracks : w.tracksWeights = true <;> by_cases hattached : w.attached = true <;>
    simp [report, reset, htracks, hattached, Function.comp_def]

/-- Whatever a watcher has heard, it can be made to forget. -/
theorem observe_reset (w : Watcher α) (g : Gradient α) : (w.observe g).reset = w.reset := by
  induction g using List.reverseRecOn with
  | nil => rfl
  | append_singleton g e ih => rw [observe_concat, report_reset, ih]

/-- Nothing was heard of a model when watching starts. -/
theorem ofModel_reset (m : Model α) (tracks : Bool) : (ofModel m tracks).reset = ofModel m tracks := by
  simp [ofModel, reset, Watched.reset, Function.comp_def, List.map_flatMap]

/-- After any moves a watcher stands as if it had but heard the reports since the last reset. -/
theorem after_eq (m : Model α) (tracks : Bool) (moves : List (Move α)) :
    (ofModel m tracks).after moves = (ofModel m tracks).observe (sinceReset moves) := by
  -- A reset undoes whatever was observed, so only what follows the last one is left to tell.
  induction moves using List.reverseRecOn with
  | nil => rfl
  | append_singleton moves mv ih =>
      have hforgotten : ((ofModel m tracks).observe (sinceReset moves)).reset = ofModel m tracks := by
        rw [observe_reset, ofModel_reset]
      rw [after_concat, ih]
      cases mv with
      | report key slope => simp [sinceReset, move]
      | pop now count => simpa [sinceReset, move, popSummary, observe] using hforgotten
      | reset => simpa [sinceReset, move, observe] using hforgotten

/-- Layers and weights that are watched hear what the watcher observes. -/
theorem observe_eq {w : Watcher α} (hattached : w.attached = true) (g : Gradient α) :
    w.observe g =
      { w with
        layers := w.layers.map fun v => v.heard g
        weights := if w.tracksWeights then w.weights.map fun v => v.heard g else w.weights } := by
  induction g using List.reverseRecOn with
  | nil => simp [observe, Watched.heard]
  | append_singleton g e ih =>
      rw [observe_concat, ih]
      by_cases htracks : w.tracksWeights = true <;> simp [report, hattached, htracks]

end Watcher

/-! ## The account -/

/-- A watched layer accounts for what has been reported: the reports of its weights make up its steps
and what is pending, and after complete passes it has taken a step for each and none is pending. -/
structure Layer.AccountedBy [Scalar α] (l : Layer α) (v : Watched α) (g : Gradient α) : Prop where
  name : v.name = l.id
  reports : (l.reportsIn g).length = v.tally.steps * l.reporters.length + v.reported
  pending : v.reported < l.reporters.length
  zeros : v.tally.zeros ≤ v.tally.entries
  passes : ∀ passes : List (Gradient α), g = passes.flatten → (∀ p ∈ passes, l.Complete p) →
    v.tally.steps = passes.length ∧ v.reported = 0 ∧
      v.tally.entries = passes.length * (l.reporters.map (·.2.size)).sum

/-- The layers with weights that report. -/
def Model.watchedLayers (m : Model α) : List (Layer α) :=
  m.layers.filter fun l => !(Watcher.trainableKeys l).isEmpty

/-- The layer as it is watched, with nothing reported yet. -/
def Layer.watched [Scalar α] (l : Layer α) : Watched α :=
  ⟨l.id, l.kind, Watcher.trainableKeys l, 0, Tally.empty⟩

@[simp]
theorem Layer.watched_weights [Scalar α] (l : Layer α) :
    l.watched.weights = Watcher.trainableKeys l := rfl

theorem Layer.accountedBy_heard [Scalar α] {l : Layer α} (hl : Watcher.trainableKeys l ≠ [])
    (g : Gradient α) : l.AccountedBy (l.watched.heard g) g := by
  have haccounts : (l.watched.heard g).Accounts (l.reportsIn g) :=
    Watched.accounts_heard rfl hl g
  refine ⟨Watched.heard_name _ _, ?_, ?_, haccounts.zeros_le, ?_⟩
  · simpa using haccounts.reports
  · simpa using haccounts.pending
  · rintro passes rfl hcomplete
    have hlength := length_reportsIn_flatten hcomplete
    obtain ⟨hsteps, hreported⟩ := haccounts.of_passes (n := passes.length) (by simpa using hlength)
    exact ⟨hsteps, hreported, haccounts.entries.trans (sum_size_reportsIn_flatten hcomplete)⟩

namespace Watcher

variable [Scalar α]

/-- After any moves each layer stands as if it had but heard the reports since the last reset. -/
theorem after_layers (m : Model α) (tracks : Bool) (moves : List (Move α)) :
    ((ofModel m tracks).after moves).layers =
      m.watchedLayers.map fun l => l.watched.heard (sinceReset moves) := by
  rw [after_eq, observe_eq rfl]
  exact List.map_map

/-- Where single weights are watched, each has taken a step for every report of its own. -/
theorem after_weights (m : Model α) (moves : List (Move α)) {v : Watched α}
    (hv : v ∈ ((ofModel m true).after moves).weights) :
    v.tally.steps = ((sinceReset moves).filter fun e => v.weights.contains e.1).length ∧
      v.reported = 0 := by
  rw [after_eq, observe_eq rfl] at hv
  obtain ⟨u, hu, rfl⟩ := List.mem_map.mp hv
  obtain ⟨l, -, hu⟩ := List.mem_flatMap.mp hu
  obtain ⟨key, -, hu⟩ := List.mem_map.mp hu
  have hfresh : u.reset = u := hu ▸ rfl
  have hsingle : u.weights.length = 1 := hu ▸ rfl
  have haccounts := Watched.accounts_heard hfresh (List.length_pos_iff.mp (by omega))
    (sinceReset moves)
  have hreports := haccounts.reports
  have hpending := haccounts.pending
  rw [Watched.heard_weights] at hreports hpending ⊢
  rw [hsingle] at hreports hpending
  omega

/-- Nothing has reported to what is watched of a model when watching starts. -/
theorem ofModel_empty {m : Model α} {tracks : Bool} {v : Watched α}
    (hv : v ∈ (ofModel m tracks).layers ++ (ofModel m tracks).weights) :
    v.reported = 0 ∧ v.tally = Tally.empty := by
  cases List.mem_append.mp hv with
  | inl hv =>
      obtain ⟨l, -, rfl⟩ := List.mem_map.mp hv
      exact ⟨rfl, rfl⟩
  | inr hv =>
      obtain ⟨l, -, hv⟩ := List.mem_flatMap.mp hv
      obtain ⟨key, -, rfl⟩ := List.mem_map.mp hv
      exact ⟨rfl, rfl⟩

/-- The records of a summary, cut off or not, are of what has reported entries. -/
theorem mem_collect {watched : List (Watched α)} {m : Model α} {count : Option Int}
    {r : GradientRecord α} (h : r ∈ collect watched m count) :
    ∃ v ∈ watched, v.tally.entries ≠ 0 ∧ v.record m = r := by
  have hr := (Ranking.descending_perm _ _).mem_iff.mp (upTo_subset count _ h)
  obtain ⟨v, hv, hrecord⟩ := List.mem_map.mp hr
  rw [List.mem_filter, bne_iff_ne] at hv
  exact ⟨v, hv.1, hv.2, hrecord⟩

/-- The records of the layers in a summary are of layers that are watched. -/
theorem exists_of_popSummary {w : Watcher α} {now : Model α} {count : Option Int}
    {s : GradientSummary α} (h : (w.popSummary now count).1 = some s) {r : GradientRecord α}
    (hr : r ∈ s.layers) : ∃ v ∈ w.layers, v.tally.entries ≠ 0 ∧ v.record now = r := by
  simp only [popSummary, Option.ite_none_left_eq_some] at h
  obtain rfl := Option.some.inj h.2
  exact mem_collect hr

/-- Each layer that has reported entries is in a summary that is not cut off. -/
theorem exists_popSummary {w : Watcher α} {v : Watched α} (hv : v ∈ w.layers)
    (hentries : v.tally.entries ≠ 0) (now : Model α) :
    ∃ s, (w.popSummary now none).1 = some s ∧ v.record now ∈ s.layers := by
  have hrecord : v.record now ∈ collect w.layers now none := by
    refine (Ranking.descending_perm _ _).mem_iff.mpr (List.mem_map_of_mem ?_)
    exact List.mem_filter.mpr ⟨hv, bne_iff_ne.mpr hentries⟩
  have hsome : (collect w.layers now none).isEmpty = false :=
    List.isEmpty_eq_false_iff_exists_mem.mpr ⟨_, hrecord⟩
  simp only [popSummary, hsome]
  exact ⟨_, rfl, hrecord⟩

/-- Without a report since the last summary there is no other one. -/
theorem popSummary_ofModel (m : Model α) (tracks : Bool) (now : Model α) (count : Option Int) :
    ((ofModel m tracks).popSummary now count).1 = none := by
  have hnone : ∀ watched, (∀ v ∈ watched, v.tally = Tally.empty) → collect watched now count = [] := by
    intro watched hempty
    refine List.eq_nil_iff_forall_not_mem.mpr fun r hr => ?_
    obtain ⟨v, hv, hentries, -⟩ := mem_collect hr
    exact hentries (by rw [hempty v hv]; rfl)
  have hlayers := hnone (ofModel m tracks).layers fun v hv =>
    (ofModel_empty (List.mem_append_left _ hv)).2
  have hweights := hnone (ofModel m tracks).weights fun v hv =>
    (ofModel_empty (List.mem_append_right _ hv)).2
  simp [popSummary, hlayers, hweights]

/-- A watcher accounts for the reports since the last summary, whatever it has gone through before.
With a summary, however short, it forgets all of them, so another one at once has nothing to tell. -/
theorem after_accounted (m : Model α) (tracks : Bool) (moves : List (Move α)) :
    let w := (ofModel m tracks).after moves
    List.Forall₂ (fun l v => l.AccountedBy v (sinceReset moves)) m.watchedLayers w.layers ∧
    ∀ now count, let popped := (w.popSummary now count).2
      popped = ofModel m tracks ∧
      (∀ v ∈ popped.layers ++ popped.weights, v.reported = 0 ∧ v.tally = Tally.empty) ∧
      ∀ later count', (popped.popSummary later count').1 = none := by
  have hpopped : ∀ now count,
      (((ofModel m tracks).after moves).popSummary now count).2 = ofModel m tracks := by
    intro now count
    have hnext := after_eq m tracks (moves ++ [.pop now count])
    simpa [sinceReset, move, observe] using hnext
  constructor
  · rw [after_layers, List.forall₂_map_right_iff, List.forall₂_same]
    intro l hl
    exact Layer.accountedBy_heard (by simpa using (List.mem_filter.mp hl).2) _
  · intro now count
    simp only [hpopped]
    exact ⟨trivial, fun v hv => ofModel_empty hv, popSummary_ofModel m tracks⟩

/-- A layer of two weights. -/
def affineLayer (α : Type) [Scalar α] : Layer α :=
  { id := "affine"
    label := .text "Affine"
    kind := "Dense"
    params := []
    inputShapes := [⟨[.size 2], .float32⟩]
    outputShape := ⟨[.size 1], .float32⟩
    feeds := [modelInput]
    weights := [⟨"kernel", .filled [2, 1] 0, true⟩, ⟨"bias", .filled [1] 0, true⟩] }

/-- The model of this one layer. -/
def affine (α : Type) [Scalar α] : Model α :=
  { layers := [affineLayer α]
    inputShape := ⟨[.size 2], .float32⟩
    externalInputs := []
    portInputs := []
    labelInputs := []
    connectionCount := 0
    warnings := []
    cycleDetected := false
    skippedNodes := []
    dataset := none }

theorem watchedLayers_affine : (affine α).watchedLayers = [affineLayer α] := rfl

theorem after_accounted_affine :
    let kernel : Tensor Float := .filled [2, 1] 3
    let bias : Tensor Float := .filled [1] 0
    let moves : List (Move Float) := [.report "affine.bias" bias, .pop (affine Float) (some 0),
      .report "affine.kernel" kernel, .report "affine.bias" bias,
      .report "affine.bias" bias, .report "affine.kernel" kernel]
    let w := (ofModel (affine Float) true).after moves
    (∃ v, w.layers = [v] ∧ v.tally.steps = 2 ∧ v.reported = 0 ∧ v.tally.entries = 6) ∧
      ((w.popSummary (affine Float) (some 0)).2.popSummary (affine Float) none).1 = none := by
  intro kernel bias moves w
  obtain ⟨hlayers, hpopped⟩ := after_accounted (affine Float) true moves
  refine ⟨?_, (hpopped (affine Float) (some 0)).2.2 (affine Float) none⟩
  obtain ⟨v, _, haccount, hnil, hv⟩ := List.forall₂_cons_left_iff.mp hlayers
  rw [List.forall₂_nil_left_iff.mp hnil] at hv
  have hpasses := haccount.passes
    [[("affine.kernel", kernel), ("affine.bias", bias)],
      [("affine.bias", bias), ("affine.kernel", kernel)]] rfl (by decide)
  exact ⟨v, hv, hpasses⟩

end Watcher

end BlockNet
