import BlockNet.Model.Pass
import BlockNet.Proofs.Compilation.Keys
import BlockNet.Proofs.Compilation.Seed
import BlockNet.Proofs.Model.Load
import Mathlib.Algebra.GroupWithZero.Nat

/-! # Weights from another seed

Models of one graph that were compiled from different seeds have weights of the same names and axes.
So either takes the weights of the other one, and is the other model from then on. -/

namespace BlockNet

variable {α : Type}

/-! ## States -/

/-- What stands under different keys is found under each of them, in any order and among anything
that stands under other keys. -/
theorem Model.valueAt?_of_perm {state own extra : List (String × Tensor α)}
    (hperm : state.Perm (own ++ extra)) (hnodup : (own.map (·.1)).Nodup)
    (hextra : ∀ e ∈ extra, e.1 ∉ own.map (·.1)) {e : String × Tensor α} (he : e ∈ own) :
    valueAt? state e.1 = some e.2 := by
  have hunique : ∀ e' ∈ state, e'.1 = e.1 → e' = e := by
    intro e' he' hkey
    rcases List.mem_append.mp (hperm.mem_iff.mp he') with hown | hother
    · exact List.inj_on_of_nodup_map hnodup hown he hkey
    · exact absurd (List.mem_map.mpr ⟨e, he, hkey.symm⟩) (hextra e' hother)
  have hfind : state.find? (·.1 == e.1) = some e :=
    find?_of_unique (hperm.mem_iff.mpr (List.mem_append_left _ he)) (beq_self_eq_true e.1)
      fun e' he' hkey => hunique e' he' (eq_of_beq hkey)
  rw [valueAt?, hfind]
  rfl

theorem Model.keys_state (m : Model α) : m.state.map (·.1) = m.weights.map (·.1) := by
  rw [state, List.map_map]
  rfl

theorem Model.mem_state {m : Model α} {L : Layer α} (hL : L ∈ m.layers) {w : Weight α}
    (hw : w ∈ L.weights) : (L.weightKey w, w.tensor) ∈ m.state :=
  List.mem_map.mpr ⟨(L.weightKey w, w),
    List.mem_flatMap.mpr ⟨L, hL, List.mem_map.mpr ⟨w, hw, rfl⟩⟩, rfl⟩

/-! ## Loading -/

namespace Model

variable {state : List (String × Tensor α)}

/-- Weights that differ in drawn values only become those whose values the state has. -/
theorem loadWeights_akin {l l' : Layer α} (hid : l'.id = l.id) {ws ws' : List (Weight α)}
    (h : AkinWeights ws ws')
    (hstate : ∀ w ∈ ws, valueAt? state (l.weightKey w) = some w.tensor) :
    loadWeights state l' ws' = (ws, .ok ()) := by
  induction h with
  | nil => rfl
  | @cons w w' ws ws' hw _ ih =>
      obtain ⟨hfirst, hrest⟩ := List.forall_mem_cons.mp hstate
      have hkey : l'.weightKey w' = l.weightKey w := by
        rw [Layer.weightKey, Layer.weightKey, hid, hw.name]
      have hfor : stateFor state (l'.weightKey w') w' = .ok w.tensor :=
        stateFor_eq_ok.mpr ⟨hkey ▸ hfirst, hw.dims.symm⟩
      have hsame : ({ w' with tensor := w.tensor } : Weight α) = w := by
        rw [hw.name, hw.trainable]
      rw [loadWeights, hfor]
      dsimp only
      rw [ih hrest, hsame]

theorem loadLayers_akin {ls ls' : List (Layer α)} (h : List.Forall₂ Layer.Akin ls ls')
    (hstate : ∀ l ∈ ls, ∀ w ∈ l.weights, valueAt? state (l.weightKey w) = some w.tensor) :
    loadLayers state ls' = (ls, .ok ()) := by
  induction h with
  | nil => rfl
  | @cons l l' ls ls' hl _ ih =>
      obtain ⟨hfirst, hrest⟩ := List.forall_mem_cons.mp hstate
      have hid : l'.id = l.id := by rw [hl.rest]
      have hsame : ({ l' with weights := l.weights } : Layer α) = l := by
        rw [hl.rest]
      rw [loadLayers, loadWeights_akin hid hl.weights hfirst]
      dsimp only
      rw [ih hrest, hsame]

/-- A model becomes one that it differs from in drawn values only, once it has loaded its values. -/
theorem load_akin {m m' : Model α} (h : m.Akin m')
    (hstate : ∀ l ∈ m.layers, ∀ w ∈ l.weights, valueAt? state (l.weightKey w) = some w.tensor) :
    m'.load state = (m, .ok ()) := by
  have hsame : ({ m' with layers := m.layers } : Model α) = m := by
    rw [h.rest]
  rw [load, loadLayers_akin h.layers hstate]
  exact congrArg (·, Except.ok ()) hsame

end Model

/-! ## Compiled models -/

namespace Compilation

variable [Scalar α] {catalog : Catalog} {g : Graph} {input : Option InputSpec}

/-- A seed counts by the whole number that it reads as. -/
theorem compile_seed {seed : Value} {m : Model α}
    (h : (compile catalog seed g input).1 = .ok m) :
    ∃ n : Int, (compile catalog (.int n) g input).1 = .ok m := by
  cases hseed : seed.toInt with
  | ok n =>
      have hrun : run (α := α) catalog (.int n) g input = run catalog seed g input := by
        simp only [run, hseed, show Value.toInt (.int n) = .ok n from rfl]
      exact ⟨n, by rw [compile, hrun, ← compile, h]⟩
  | error fault =>
      rw [compile] at h
      split at h
      · rename_i hrun
        rw [run] at hrun
        split at hrun
        · cases hrun
        · obtain ⟨dataset, -, hrun⟩ := bind_eq_ok.mp hrun
          obtain ⟨shape, -, hrun⟩ := bind_eq_ok.mp hrun
          obtain ⟨n, hn, -⟩ := bind_eq_ok.mp hrun
          rw [hseed] at hn
          cases hn
      · cases h

theorem compile_akin {seed seed' : Value} {m m' : Model α}
    (h : (compile catalog seed g input).1 = .ok m)
    (h' : (compile catalog seed' g input).1 = .ok m') : m.Akin m' := by
  obtain ⟨n, hn⟩ := compile_seed h
  obtain ⟨n', hn'⟩ := compile_seed h'
  have htwin := (compile_seeded (α := α) catalog g input n n').1
  rw [hn, hn'] at htwin
  cases htwin with
  | ok hakin => exact hakin

/-- The state of a compiled model has each of its weights under a key of its own, whatever the ids of
nodes look like. A model compiled from another seed that loads it, with anything added under other
keys, has the same state from then on and gives the same in every pass. -/
theorem compile_exchange {seed seed' : Value} {m m' : Model α}
    (h : (compile catalog seed g input).1 = .ok m)
    (h' : (compile catalog seed' g input).1 = .ok m') :
    (m.state.map (·.1)).Nodup ∧
      (∀ L ∈ m.layers, ∀ w ∈ L.weights, (L.id ++ "." ++ w.name, w.tensor) ∈ m.state) ∧
      m.state.length = (m.layers.map fun L => L.weights.length).sum ∧
      ∀ state extra, state.Perm (m.state ++ extra) → (∀ e ∈ extra, e.1 ∉ m.state.map (·.1)) →
        ∃ loaded : Model α, m'.load state = (loaded, .ok ()) ∧ loaded.state = m.state ∧
          ∀ inputs mode gen, loaded.run inputs mode gen = m.run inputs mode gen := by
  have hnodup : (m.state.map (·.1)).Nodup :=
    m.keys_state ▸ (compile_compiled h).nodup_keys
  refine ⟨hnodup, fun L hL w hw => Model.mem_state hL hw, ?_, fun state extra hperm hextra => ?_⟩
  · simp [Model.state, Model.weights, List.length_flatMap]
  · have hload : m'.load state = (m, .ok ()) := by
      refine Model.load_akin (compile_akin h h') fun L hL w hw => ?_
      exact Model.valueAt?_of_perm hperm hnodup hextra (Model.mem_state hL hw)
    exact ⟨m, hload, rfl, fun _ _ _ => rfl⟩

/-- Two dense layers in a row, the second of them called as the first one's kernel. -/
def dotted : Graph where
  nodes := [⟨"h", "Dense", [(.text "units", .int 2)], .null, false, .null, []⟩,
    ⟨"h.kernel", "Dense", [(.text "units", .int 1)], .null, false, .null, []⟩]
  connections :=
    [⟨.null, "h", .text "output", "h.kernel", .text "input", .null, .null, []⟩]

/-- A value under a key that looks like a weight of either layer and is of neither. -/
def strayWeight : String × Tensor Float := ("h.kernel.gamma", Tensor.filled [1] 5)

/-- The weights drawn from one seed replace those drawn from another one. -/
theorem compile_exchange_dotted : ∃ m m' : Model Float,
    (compile Stock.catalog (.int 0) dotted (some (.sizes (.list [.int 2])))).1 = .ok m ∧
    (compile Stock.catalog (.int 1) dotted (some (.sizes (.list [.int 2])))).1 = .ok m' ∧
    m.state.map (·.1) = ["h.kernel", "h.bias", "h.kernel.kernel", "h.kernel.bias"] ∧
    m'.state ≠ m.state ∧
    ∃ loaded, m'.load (strayWeight :: m.state) = (loaded, .ok ()) ∧ loaded.state = m.state ∧
      ∀ inputs mode gen, loaded.run inputs mode gen = m.run inputs mode gen := by
  have hrun : ((compile (α := Float) Stock.catalog (.int 0) dotted
        (some (.sizes (.list [.int 2])))).1.toOption.map fun m => m.state.map (·.1)) =
        some ["h.kernel", "h.bias", "h.kernel.kernel", "h.kernel.bias"] := by
    decide +kernel
  have hdiffer : ((compile (α := Float) Stock.catalog (.int 0) dotted
        (some (.sizes (.list [.int 2])))).1.toOption.map fun m =>
          m.state.map fun e => e.2.entries.toList) ≠
      ((compile (α := Float) Stock.catalog (.int 1) dotted
        (some (.sizes (.list [.int 2])))).1.toOption.map fun m =>
          m.state.map fun e => e.2.entries.toList) := by
    decide +kernel
  have hrun' : ((compile (α := Float) Stock.catalog (.int 1) dotted
        (some (.sizes (.list [.int 2])))).1.toOption).isSome := by
    decide +kernel
  obtain ⟨m, hm, hkeys⟩ := Option.map_eq_some_iff.mp hrun
  obtain ⟨m', hm'⟩ := Option.isSome_iff_exists.mp hrun'
  have hstates : m'.state ≠ m.state := by
    intro hsame
    rw [hm, hm', Option.map_some, Option.map_some, hsame] at hdiffer
    exact hdiffer rfl
  have hexchange := compile_exchange (toOption_eq_some.mp hm) (toOption_eq_some.mp hm')
  refine ⟨m, m', toOption_eq_some.mp hm, toOption_eq_some.mp hm', hkeys, hstates, ?_⟩
  refine hexchange.2.2.2 (strayWeight :: m.state) [strayWeight]
    (List.perm_append_singleton strayWeight m.state).symm fun e he => ?_
  rw [List.mem_singleton.mp he, hkeys]
  decide

end Compilation

end BlockNet
