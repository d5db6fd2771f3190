import BlockNet.Model.Gradient
import BlockNet.Proofs.Outcome
import Mathlib.Logic.Relation

/-! # What a gradient reaches

A gradient names weights of those layers only from which the last layer can be reached along the
feeds of the model. -/

namespace BlockNet

variable {α : Type}

/-! ## Reachability -/

/-- The layer of an id feeds that of another one: it comes before it and is among its feeds. -/
def Model.Feeds (m : Model α) (id id' : String) : Prop :=
  ∃ earlier L later, m.layers = earlier ++ L :: later ∧ L.id = id' ∧ id ∈ L.feeds ∧
    id ∈ earlier.map (·.id)

/-- The last layer can be reached from the layer of an id along feeds. -/
def Model.FeedsResult (m : Model α) (id : String) : Prop :=
  ∃ last, m.layers.getLast? = some last ∧ Relation.ReflTransGen m.Feeds id last.id

/-- A weight of the name belongs to a layer from which the last one can be reached. -/
def Model.ResultReads (m : Model α) (key : String) : Prop :=
  ∃ L ∈ m.layers, m.FeedsResult L.id ∧ ∃ w ∈ L.weights, key = L.weightKey w

/-! ## Visits -/

variable [Scalar α]

namespace Pass

theorem visit_layer {m : Model α} {inputs : Inputs α} {mode : PassMode} {visits : List (Visit α)}
    {L : Layer α} {v : Visit α} {g g' : Generator}
    (h : (visit m inputs mode visits L).run g = (.ok v, g')) : v.layer = L := by
  rw [visit] at h
  cases hk : Kernel.ofKind? L.kind with
  | none =>
      rw [hk] at h
      cases (Prod.mk.inj h).1
  | some k =>
      simp only [hk] at h
      obtain ⟨args, _, -, h⟩ := run_bind_eq_ok.mp h
      obtain ⟨start, _, -, h⟩ := run_bind_eq_ok.mp h
      obtain ⟨output, _, -, h⟩ := run_bind_eq_ok.mp h
      obtain ⟨rfl, -⟩ := run_pure_eq_ok.mp h
      rfl

theorem visitAll_layers (m : Model α) (inputs : Inputs α) (mode : PassMode) (rest : List (Layer α))
    (visits : List (Visit α)) (g : Generator) :
    (visitAll m inputs mode rest visits g).1.map (·.layer) <+: visits.map (·.layer) ++ rest := by
  induction rest generalizing visits g with
  | nil => simp [visitAll]
  | cons L rest ih =>
      rw [visitAll]
      rcases hv : (visit m inputs mode visits L).run g with ⟨fault | v, g'⟩
      · exact List.prefix_append _ _
      · have hlayers := ih (visits ++ [v]) g'
        rwa [List.map_append, List.map_singleton, visit_layer hv, List.append_assoc,
          List.singleton_append] at hlayers

end Pass

/-- A pass visits layers from the first on. -/
theorem Model.run_layers (m : Model α) (inputs : Inputs α) (mode : PassMode) (g : Generator) :
    (m.run inputs mode g).visits.map (·.layer) <+: m.layers :=
  Pass.visitAll_layers m _ mode m.layers [] g

/-! ## Slopes handed back -/

namespace Pass

theorem mem_addSlope {known : Gradient α} {id key : String} {g : Tensor α} :
    key ∈ (addSlope known id g).map (·.1) ↔ key ∈ known.map (·.1) ∨ key = id := by
  induction known with
  | nil => simp [addSlope]
  | cons e known ih =>
      rw [addSlope]
      split
      · rename_i hid
        subst hid
        simp [or_comm]
      · simp only [List.map_cons, List.mem_cons, ih, or_assoc]

theorem mem_foldl_addSlope {feeds : List (String × Tensor α)} {known : Gradient α} {key : String}
    (h : key ∈ (feeds.foldl (fun known f => addSlope known f.1 f.2) known).map (·.1)) :
    key ∈ known.map (·.1) ∨ key ∈ feeds.map (·.1) := by
  induction feeds generalizing known with
  | nil => exact .inl h
  | cons f feeds ih =>
      rcases ih h with h | h
      · rcases mem_addSlope.mp h with h | rfl
        · exact .inl h
        · exact .inr List.mem_cons_self
      · exact .inr (List.mem_cons_of_mem _ h)

theorem slopesOf_eq_some {mode : PassMode} {v : Visit α} {known : Gradient α} {s : Slopes α}
    (h : slopesOf mode v known = some s) : v.layer.id ∈ known.map (·.1) := by
  rw [slopesOf] at h
  cases hfind : known.find? (·.1 == v.layer.id) with
  | none =>
      rw [hfind] at h
      cases h
  | some e =>
      have hid : e.1 = v.layer.id := by simpa using List.find?_some hfind
      exact hid ▸ List.mem_map_of_mem (List.mem_of_find?_eq_some hfind)

/-- A visit hands slopes on only if one is known at its result: to its own weights and its feeds. -/
theorem stepBack_names (mode : PassMode) (ids : List String) (v : Visit α) (b : Backlog α) :
    (∀ key ∈ (stepBack mode ids v b).weights.map (·.1), key ∈ b.weights.map (·.1) ∨
      v.layer.id ∈ b.results.map (·.1) ∧ ∃ w ∈ v.layer.weights, key = v.layer.weightKey w) ∧
    ∀ key ∈ (stepBack mode ids v b).results.map (·.1), key ∈ b.results.map (·.1) ∨
      v.layer.id ∈ b.results.map (·.1) ∧ key ∈ v.layer.feeds := by
  rw [stepBack]
  split
  · exact ⟨fun key h => .inl h, fun key h => .inl h⟩
  · cases hs : slopesOf mode v b.results with
    | none => exact ⟨fun key h => .inl h, fun key h => .inl h⟩
    | some s =>
        have hknown := slopesOf_eq_some hs
        refine ⟨fun key h => ?_, fun key h => ?_⟩
        · rw [List.map_append, List.mem_append, List.map_map] at h
          refine h.symm.imp_right fun h => ⟨hknown, ?_⟩
          obtain ⟨⟨w, slope⟩, hw, rfl⟩ := List.mem_map.mp h
          exact ⟨w, (List.of_mem_zip (List.mem_of_mem_filter hw)).1, rfl⟩
        · refine (mem_foldl_addSlope h).imp_right fun h => ⟨hknown, ?_⟩
          obtain ⟨⟨feed, slope⟩, hf, rfl⟩ := List.mem_map.mp h
          exact (List.of_mem_zip (List.mem_of_mem_filter hf)).1

/-- Going backwards through visits, slopes are known at the results of those layers only, among the
ones not gone through yet, from which the last layer can be reached. -/
theorem foldr_stepBack_names {m : Model α} {mode : PassMode} {ids : List String}
    {start : Backlog α} (hweights : start.weights = []) (front : List (Visit α))
    {back : List (Visit α)} {rest : List (Layer α)}
    (hlayers : m.layers = (front ++ back).map (·.layer) ++ rest)
    (hstart : ∀ v ∈ front ++ back, v.layer.id ∈ start.results.map (·.1) →
      m.FeedsResult v.layer.id) :
    (∀ key ∈ (back.foldr (stepBack mode ids) start).weights.map (·.1), m.ResultReads key) ∧
    ∀ v ∈ front, v.layer.id ∈ (back.foldr (stepBack mode ids) start).results.map (·.1) →
      m.FeedsResult v.layer.id := by
  -- a visit leaves `front` for `back` once it is gone through; slopes are handed to `front` only
  induction back generalizing front with
  | nil =>
      rw [List.append_nil] at hstart
      refine ⟨fun key h => ?_, hstart⟩
      rw [List.foldr_nil, hweights] at h
      cases h
  | cons v back ih =>
      have happend : front ++ v :: back = front ++ [v] ++ back := List.append_cons _ _ _
      obtain ⟨hreads, hfeeds⟩ := ih (front ++ [v]) (happend ▸ hlayers) (happend ▸ hstart)
      have hv : v.layer ∈ m.layers := by
        rw [hlayers]
        simp
      have hmine := hfeeds v (List.mem_append_right front (List.mem_singleton_self v))
      obtain ⟨hw, hr⟩ := stepBack_names mode ids v (back.foldr (stepBack mode ids) start)
      rw [List.foldr_cons]
      refine ⟨fun key h => ?_, fun u hu h => ?_⟩
      · rcases hw key h with h | ⟨hknown, w, hmem, rfl⟩
        · exact hreads key h
        · exact ⟨v.layer, hv, hmine hknown, w, hmem, rfl⟩
      · rcases hr u.layer.id h with h | ⟨hknown, hfed⟩
        · exact hfeeds u (List.mem_append_left _ hu) h
        · obtain ⟨last, hlast, hpath⟩ := hmine hknown
          refine ⟨last, hlast, .head ⟨front.map (·.layer), v.layer, back.map (·.layer) ++ rest, ?_,
            rfl, hfed, ?_⟩ hpath⟩
          · rw [hlayers]
            simp
          · rw [List.map_map]
            exact List.mem_map_of_mem hu

/-- A gradient names weights only that the result of the model reads. -/
theorem gradient_names {p : Pass α} {m : Model α} (hlayers : p.visits.map (·.layer) <+: m.layers)
    (slope : Tensor α) : ∀ e ∈ p.gradient m slope, m.ResultReads e.1 := by
  intro e he
  rw [gradient] at he
  split at he
  · cases he
  · rename_i id y hresult
    obtain ⟨last, hlast, hy⟩ := Option.bind_eq_some_iff.mp hresult
    obtain ⟨_, -, hy⟩ := Option.map_eq_some_iff.mp hy
    obtain ⟨rfl, rfl⟩ := Prod.mk.inj hy
    obtain ⟨rest, hrest⟩ := hlayers
    refine (foldr_stepBack_names rfl [] hrest.symm ?_).1 e.1 (List.mem_map_of_mem he)
    intro v hv hid
    have hmem : v.layer.id = last.id := by simpa using hid
    exact ⟨last, hlast, hmem ▸ .refl⟩

end Pass

end BlockNet
