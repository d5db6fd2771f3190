import BlockNet.Model.Compilation
import BlockNet.Proofs.Layer.Alike
import BlockNet.Proofs.Outcome

/-! # Loading weights

A model takes its weights from a state one after the other and stops at the first one that the state
has no fitting value for. What stands before that one is loaded, and everything from there on stays
as it was. -/

namespace BlockNet.Model

variable {α : Type}

/-- The value that a state has under a key. -/
def valueAt? (state : List (String × Tensor α)) (key : String) : Option (Tensor α) :=
  (state.find? (·.1 == key)).map (·.2)

/-- The state has a value of the axes of a weight under its key. -/
def Fits (state : List (String × Tensor α)) (entry : String × Weight α) : Prop :=
  ∃ t, valueAt? state entry.1 = some t ∧ t.dims = entry.2.tensor.dims

/-- The state has nothing under the key of a weight, or a value of other axes. -/
inductive Refuses (state : List (String × Tensor α)) : String × Weight α → Fault → Prop
  | missing {key w} (h : valueAt? state key = none) :
      Refuses state (key, w) (.missingWeight key)
  | unlike {key w t} (h : valueAt? state key = some t) (hdims : t.dims ≠ w.tensor.dims) :
      Refuses state (key, w) (.weightShape key w.tensor.dims t.dims)

/-- A weight with the value that the state has for it. -/
def taken (state : List (String × Tensor α)) (entry : String × Weight α) : String × Weight α :=
  (entry.1, { entry.2 with tensor := (valueAt? state entry.1).getD entry.2.tensor })

variable {state : List (String × Tensor α)}

theorem stateFor_eq_ok {key : String} {w : Weight α} {t : Tensor α} :
    stateFor state key w = .ok t ↔ valueAt? state key = some t ∧ t.dims = w.tensor.dims := by
  rw [stateFor, valueAt?]
  cases state.find? (·.1 == key) with
  | none => simp
  | some entry =>
      simp only [Option.map_some, Option.some.injEq]
      split
      · rename_i hdims
        rw [Except.ok.injEq]
        exact ⟨fun h => ⟨h, h ▸ hdims⟩, And.left⟩
      · rename_i hdims
        exact ⟨by rintro ⟨⟩, fun h => absurd (h.1 ▸ h.2) hdims⟩

theorem refuses_of_stateFor {key : String} {w : Weight α} {fault : Fault}
    (h : stateFor state key w = .error fault) : Refuses state (key, w) fault := by
  rw [stateFor] at h
  split at h
  · rename_i hnone
    obtain rfl := Except.error.inj h
    exact .missing (by rw [valueAt?, hnone]; rfl)
  · rename_i hsome
    split at h
    · cases h
    · rename_i hdims
      obtain rfl := Except.error.inj h
      exact .unlike (by rw [valueAt?, hsome]; rfl) hdims

theorem fits_of_stateFor {key : String} {w : Weight α} {t : Tensor α}
    (h : stateFor state key w = .ok t) : Fits state (key, w) := ⟨t, stateFor_eq_ok.mp h⟩

theorem taken_of_stateFor {key : String} {w : Weight α} {t : Tensor α}
    (h : stateFor state key w = .ok t) : taken state (key, w) = (key, { w with tensor := t }) := by
  rw [taken, (stateFor_eq_ok.mp h).1]
  rfl

/-- A taken weight is the weight itself if the state has its value. -/
theorem taken_eq_self {entry : String × Weight α} (h : Fits state entry) :
    taken state entry = entry ↔ valueAt? state entry.1 = some entry.2.tensor := by
  obtain ⟨key, w⟩ := entry
  obtain ⟨t, ht, -⟩ := h
  dsimp only at ht
  rw [taken, ht]
  constructor
  · intro h
    exact congrArg some (congrArg (fun e : String × Weight α => e.2.tensor) h)
  · intro h
    obtain rfl := Option.some.inj h
    rfl

/-! ## Up to the first fault -/

/-- What becomes of weights under their keys, and whether all of them were loaded: those before the
first that is refused are taken from the state. -/
inductive Loads (state : List (String × Tensor α)) :
    List (String × Weight α) → List (String × Weight α) → Outcome Unit → Prop
  | all : Loads state [] [] (.ok ())
  | refused {entry rest fault} (h : Refuses state entry fault) :
      Loads state (entry :: rest) (entry :: rest) (.error fault)
  | took {entry rest rest' done} (h : Fits state entry) (hrest : Loads state rest rest' done) :
      Loads state (entry :: rest) (taken state entry :: rest') done

namespace Loads

variable {front front' back back' : List (String × Weight α)} {done : Outcome Unit}

/-- Nothing behind a fault is looked at. -/
theorem append_of_error {fault : Fault} (h : Loads state front front' (.error fault)) :
    Loads state (front ++ back) (front' ++ back) (.error fault) := by
  generalize hdone : Except.error fault = done at h
  induction h with
  | all => cases hdone
  | refused h =>
      obtain rfl := Except.error.inj hdone
      exact .refused h
  | took h _ ih => exact .took h (ih hdone)

theorem append_of_ok (h : Loads state front front' (.ok ())) (hback : Loads state back back' done) :
    Loads state (front ++ back) (front' ++ back') done := by
  generalize hdone : Except.ok () = front_done at h
  induction h with
  | all => exact hback
  | refused => cases hdone
  | took h _ ih => exact .took h (ih hdone)

/-- The weights before the first that is refused, and the rest. -/
theorem split {entries entries' : List (String × Weight α)} (h : Loads state entries entries' done) :
    ∃ before rest, entries = before ++ rest ∧ (∀ entry ∈ before, Fits state entry) ∧
      entries' = before.map (taken state) ++ rest ∧
      ((rest = [] ∧ done = .ok ()) ∨
        ∃ entry behind fault, rest = entry :: behind ∧ Refuses state entry fault ∧
          done = .error fault) := by
  induction h with
  | all => exact ⟨[], [], rfl, by simp, rfl, .inl ⟨rfl, rfl⟩⟩
  | @refused entry rest fault h =>
      exact ⟨[], entry :: rest, rfl, by simp, rfl, .inr ⟨entry, rest, fault, rfl, h, rfl⟩⟩
  | @took entry _ _ _ h _ ih =>
      obtain ⟨before, rest, rfl, hfits, rfl, hdone⟩ := ih
      exact ⟨entry :: before, rest, rfl, List.forall_mem_cons.mpr ⟨h, hfits⟩, rfl, hdone⟩

end Loads

/-- The weights of a layer under their keys. -/
def keyed (l : Layer α) (ws : List (Weight α)) : List (String × Weight α) :=
  ws.map fun w => (l.weightKey w, w)

theorem loadWeights_loads (state : List (String × Tensor α)) (l : Layer α) (ws : List (Weight α)) :
    Loads state (keyed l ws) (keyed l (loadWeights state l ws).1) (loadWeights state l ws).2 := by
  induction ws with
  | nil => exact .all
  | cons w ws ih =>
      rw [loadWeights]
      split
      · rename_i h
        exact .refused (refuses_of_stateFor h)
      · rename_i t h
        have htook := Loads.took (fits_of_stateFor h) ih
        rwa [taken_of_stateFor h] at htook

theorem loadWeights_form (state : List (String × Tensor α)) (l : Layer α) (ws : List (Weight α)) :
    SameForms (loadWeights state l ws).1 ws := by
  induction ws with
  | nil => rfl
  | cons w ws ih =>
      rw [loadWeights]
      split
      · rfl
      · rename_i t h
        rw [SameForms, List.map_cons, List.map_cons, Weight.form, Weight.form,
          (stateFor_eq_ok.mp h).2]
        exact congrArg _ ih

theorem loadLayers_loads (state : List (String × Tensor α)) (ls : List (Layer α)) :
    Loads state (ls.flatMap fun l => keyed l l.weights)
      ((loadLayers state ls).1.flatMap fun l => keyed l l.weights) (loadLayers state ls).2 := by
  induction ls with
  | nil => exact .all
  | cons l ls ih =>
      have hweights := loadWeights_loads state l l.weights
      rw [loadLayers]
      split
      · rename_i ws fault h
        rw [h] at hweights
        exact hweights.append_of_error
      · rename_i ws _ h
        rw [h] at hweights
        exact hweights.append_of_ok ih

theorem loadLayers_form (state : List (String × Tensor α)) (ls : List (Layer α)) :
    (loadLayers state ls).1.map Layer.form = ls.map Layer.form := by
  induction ls with
  | nil => rfl
  | cons l ls ih =>
      have hweights := loadWeights_form state l l.weights
      have hform : ({ l with weights := (loadWeights state l l.weights).1 } : Layer α).form = l.form := by
        rw [Layer.form, hweights]
        rfl
      rw [loadLayers]
      split
      · rename_i ws fault h
        rw [h] at hform
        exact congrArg (· :: _) hform
      · rename_i ws _ h
        rw [h] at hform
        rw [List.map_cons, List.map_cons, hform, ih]

/-- A load goes through the weights in order and stops with a fault at the first one that the state
has no value of its axes for. The weights before that one are taken from the state, and from there on
every weight has the value it had. So a load that fails leaves all weights as they were just if the
state has the old values of those before the fault. Nothing but values of weights changes. -/
theorem load_stops (m : Model α) (state : List (String × Tensor α)) :
    ∃ before rest, m.weights = before ++ rest ∧ (∀ entry ∈ before, Fits state entry) ∧
      (m.load state).1.weights = before.map (taken state) ++ rest ∧
      ((rest = [] ∧ (m.load state).2 = .ok ()) ∨
        ∃ entry behind fault, rest = entry :: behind ∧ Refuses state entry fault ∧
          (m.load state).2 = .error fault) ∧
      ((m.load state).1.weights = m.weights ↔
        ∀ entry ∈ before, valueAt? state entry.1 = some entry.2.tensor) ∧
      (m.load state).1 = { m with layers := (m.load state).1.layers } ∧
      (m.load state).1.layers.map Layer.form = m.layers.map Layer.form := by
  have hloads : Loads state m.weights (m.load state).1.weights (m.load state).2 :=
    loadLayers_loads state m.layers
  obtain ⟨before, rest, hsplit, hfits, htaken, hdone⟩ := hloads.split
  refine ⟨before, rest, hsplit, hfits, htaken, hdone, ?_, rfl, loadLayers_form state m.layers⟩
  rw [htaken, hsplit, List.append_left_inj]
  nth_rewrite 2 [← List.map_id before]
  rw [List.map_inj_left]
  exact forall₂_congr fun entry hentry => taken_eq_self (hfits entry hentry)

/-! ## Half a state -/

/-- A lone normalization of rows. -/
def normGraph : Graph := ⟨[⟨"norm", "LayerNorm", [], .null, false, .null, []⟩], []⟩

/-- Factors for a normalization of two columns, and no shifts. -/
def halfState : List (String × Tensor Float) := [("norm.gamma", Tensor.filled [2] 5)]

/-- The fault comes at the shifts, when the factors have been loaded. -/
theorem load_fails_halfway : ∃ (m : Model Float) (fault : Fault),
    (compile Stock.catalog (.int 0) normGraph (some (.sizes (.list [.int 2])))).1 = .ok m ∧
    (m.load halfState).2 = .error fault ∧ (m.load halfState).1.state ≠ m.state := by
  have hrun : ((compile (α := Float) Stock.catalog (.int 0) normGraph
        (some (.sizes (.list [.int 2])))).1.toOption.map fun m =>
      let figures := fun m : Model Float => m.state.map fun e => e.2.entries.toList
      (figures m, figures (m.load halfState).1, (m.load halfState).2.isOk)) =
        some ([[1, 1], [0, 0]], [[5, 5], [0, 0]], false) := by
    decide +kernel
  obtain ⟨m, hm, hfigures⟩ := Option.map_eq_some_iff.mp hrun
  simp only [Prod.mk.injEq] at hfigures
  obtain ⟨hbefore, hafter, hfails⟩ := hfigures
  cases hload : (m.load halfState).2 with
  | ok =>
      rw [hload] at hfails
      cases hfails
  | error fault =>
      refine ⟨m, fault, toOption_eq_some.mp hm, hload, fun hsame => ?_⟩
      rw [hsame, hbefore] at hafter
      exact absurd hafter (by decide)

end BlockNet.Model
