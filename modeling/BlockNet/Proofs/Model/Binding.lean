import BlockNet.Proofs.Model.Announced
import BlockNet.Proofs.Model.Types

/-! # What inputs are bound to

A tensor that is given alone is bound to what it would be bound to under the name of the input of
the model. Where no layer reads a port from outside, it might as well be named for everything that
is read. A feed that nothing is given for stops the pass, if the pass comes that far. -/

namespace BlockNet

variable {α : Type}

/-! ## Keys of ports -/

namespace Compilation

/-- The keys of ports hold dots. -/
def Progress.Dotted (p : Progress α) : Prop := ∀ key ∈ p.portInputs, '.' ∈ key.toList

theorem dot_mem_feedKey {d : BlockDefinition} {source : Node} {port : Value}
    (h : feedKey d source port ≠ source.id) : '.' ∈ (feedKey d source port).toList := by
  rw [feedKey] at h ⊢
  split
  · rename_i hfirst
    rw [if_pos hfirst] at h
    exact absurd rfl h
  · simp

theorem keptByNotes_dotted : KeptByNotes (Progress.Dotted (α := α)) where
  tables hp _ hports _ := by rw [Progress.Dotted, hports]; exact hp
  note {p} d source port shape hp := by
    rw [Progress.Dotted, Progress.addExternal]
    by_cases hsecondary : feedKey d source port = source.id
    · simp only [hsecondary, bne_self_eq_false, Bool.false_eq_true, if_false]
      exact hp
    · have hne : (feedKey d source port != source.id) = true := bne_iff_ne.mpr hsecondary
      simp only [hne, if_true]
      intro key hkey
      rcases mem_putOnce.mp hkey with hkey | rfl
      · exact hp key hkey
      · exact dot_mem_feedKey hsecondary

theorem compile_dotted [Scalar α] {catalog : Catalog} {seed : Value} {g : Graph}
    {input : Option InputSpec} {m : Model α} (h : (compile catalog seed g input).1 = .ok m) :
    ∀ key ∈ m.portInputs, '.' ∈ key.toList := by
  obtain ⟨r, log, p, hp⟩ := compile_completed h
  rw [hp.ports]
  exact hp.keeps keptByNotes_dotted fun _ _ => by simp [Progress.Dotted, Progress.start]

end Compilation

/-! ## What a layer reads -/

/-- What is awaited is among the feeds of a layer. -/
theorem Model.Awaits.exists_feeds {m : Model α} {key : String} (h : m.Awaits key) :
    ∃ feeds ∈ m.layers.map (·.feeds), key ∈ feeds := by
  obtain ⟨earlier, L, later, hsplit, hkey, -⟩ := h
  rw [hsplit, List.map_append, List.map_cons]
  exact ⟨L.feeds, List.mem_append_right _ List.mem_cons_self, hkey⟩

namespace Pass

/-- What is read under a key after some visits. -/
def argument (m : Model α) (inputs : Inputs α) (visits : List (Visit α)) (key : String) :
    Outcome (Signal α) :=
  match outputOf? visits key with
  | some x => .ok x
  | none => feed m inputs key

theorem argumentsOf_eq (m : Model α) (inputs : Inputs α) (visits : List (Visit α)) (L : Layer α) :
    argumentsOf m inputs visits L = L.feeds.mapM (argument m inputs visits) := rfl

theorem argument_eq_feed {m : Model α} {visits : List (Visit α)} {key : String}
    (hkey : key ∉ visits.map (·.layer.id)) (inputs : Inputs α) :
    argument m inputs visits key = feed m inputs key := by
  rw [argument, outputOf?_eq_none hkey]

theorem argument_congr {m : Model α} {inputs inputs' : Inputs α} {visits : List (Visit α)}
    {key : String} (h : key ∉ visits.map (·.layer.id) → feed m inputs key = feed m inputs' key) :
    argument m inputs visits key = argument m inputs' visits key := by
  by_cases hkey : key ∈ visits.map (·.layer.id)
  · obtain ⟨v, hv, rfl⟩ := List.mem_map.mp hkey
    have hsome : (visits.reverse.find? (·.layer.id == v.layer.id)).isSome = true := by
      rw [List.find?_isSome]
      exact ⟨v, List.mem_reverse.mpr hv, beq_self_eq_true v.layer.id⟩
    obtain ⟨w, hw⟩ := Option.isSome_iff_exists.mp hsome
    simp only [argument, outputOf?, hw, Option.map_some]
  · rw [argument_eq_feed hkey, argument_eq_feed hkey, h hkey]

variable [Scalar α]

theorem visit_congr {m : Model α} {inputs inputs' : Inputs α} {visits : List (Visit α)}
    {L : Layer α} (mode : PassMode)
    (h : ∀ key ∈ L.feeds, argument m inputs visits key = argument m inputs' visits key) :
    visit m inputs mode visits L = visit m inputs' mode visits L := by
  have hargs : argumentsOf m inputs visits L = argumentsOf m inputs' visits L := mapM_congr h
  rw [visit, visit, hargs]

/-- A pass depends on what it feeds under the keys that are read from outside. -/
theorem visitAll_congr {m : Model α} {inputs inputs' : Inputs α}
    (h : ∀ key, m.Awaits key → feed m inputs key = feed m inputs' key) (mode : PassMode)
    (rest : List (Layer α)) (visits : List (Visit α))
    (hsplit : m.layers = visits.map (·.layer) ++ rest) (g : Generator) :
    visitAll m inputs mode rest visits g = visitAll m inputs' mode rest visits g := by
  induction rest generalizing visits g with
  | nil => rfl
  | cons L rest ih =>
      have hvisit : visit m inputs mode visits L = visit m inputs' mode visits L := by
        apply visit_congr
        intro key hkey
        apply argument_congr
        intro hnew
        apply h
        refine ⟨visits.map (·.layer), L, rest, hsplit, hkey, ?_⟩
        rwa [List.map_map]
      rw [visitAll, visitAll, hvisit]
      rcases hv : (visit m inputs' mode visits L).run g with ⟨fault | v, g'⟩
      · rfl
      · apply ih
        rw [List.map_append, List.map_singleton, visit_layer hv, hsplit, List.append_assoc,
          List.singleton_append]

theorem visitAll_append (m : Model α) (inputs : Inputs α) (mode : PassMode)
    (front rest : List (Layer α)) (visits : List (Visit α)) (g : Generator) :
    visitAll m inputs mode (front ++ rest) visits g =
      match visitAll m inputs mode front visits g with
      | (visits', none, g') => visitAll m inputs mode rest visits' g'
      | (visits', some fault, g') => (visits', some fault, g') := by
  induction front generalizing visits g with
  | nil => rfl
  | cons L front ih =>
      rw [List.cons_append, visitAll, visitAll]
      rcases (visit m inputs mode visits L).run g with ⟨fault | v, g'⟩
      · rfl
      · exact ih (visits ++ [v]) g'

end Pass

/-! ## A tensor alone and tensors by name -/

section Named

variable {m : Model α}

theorem Pass.given_single (hports : modelInput ∉ m.portInputs) (x : Signal α) (key : String) :
    given m (.single x) key = given m (.named [(modelInput, x)]) key := by
  by_cases hkey : key = modelInput
  · subst hkey
    simp [given, hports]
  · have hnone : (modelInput == key) = false := by simpa using fun h => hkey h.symm
    simp [given, hnone]

theorem Pass.feed_named {xs : List (String × Signal α)} {x : Signal α} {key : String}
    (hports : key ∉ m.portInputs) (hx : (xs.find? (·.1 == key)).map (·.2) = some x) :
    feed m (.named xs) key = feed m (.single x) key := by
  obtain ⟨e, he, rfl⟩ := Option.map_eq_some_iff.mp hx
  simp [feed, given, he, hports]

variable [Scalar α] {x : Signal α}

/-- A batch alone is the input of the model. -/
theorem Model.run_single (hports : modelInput ∉ m.portInputs) (hx : Pass.isUnbatched m x = false)
    (mode : PassMode) (g : Generator) :
    m.run (.single x) mode g = m.run (.named [(modelInput, x)]) mode g := by
  have hvisits : Pass.visitAll m (.single x) mode m.layers [] g =
      Pass.visitAll m (.named [(modelInput, x)]) mode m.layers [] g := by
    apply Pass.visitAll_congr
    · intro key _
      rw [Pass.feed, Pass.feed, Pass.given_single hports]
    · rfl
  simp only [Model.run, hx, Bool.false_eq_true, if_false, hvisits]

/-- A batch alone is everything that is read from outside, if that is no port. -/
theorem Model.run_named (hports : ∀ key, m.Awaits key → key ∉ m.portInputs)
    (hx : Pass.isUnbatched m x = false) {xs : List (String × Signal α)}
    (hxs : ∀ key, m.Awaits key → (xs.find? (·.1 == key)).map (·.2) = some x) (mode : PassMode)
    (g : Generator) : m.run (.named xs) mode g = m.run (.single x) mode g := by
  have hvisits : Pass.visitAll m (.named xs) mode m.layers [] g =
      Pass.visitAll m (.single x) mode m.layers [] g := by
    apply Pass.visitAll_congr
    · intro key hkey
      exact Pass.feed_named (hports key hkey) (hxs key hkey)
    · rfl
  simp only [Model.run, hx, Bool.false_eq_true, if_false, hvisits]

end Named

/-! ## Missing feeds -/

/-- Nothing is given for what reads a key: it is a port that is not named, or it is no layer and
neither it nor the input of the model is named. -/
def Inputs.Lacks (m : Model α) (key : String) : Inputs α → Prop
  | .single _ => key ∈ m.portInputs
  | .named xs => key ∉ xs.map (·.1) ∧
      (key ∈ m.portInputs ∨ key ∉ m.layers.map (·.id) ∧ modelInput ∉ xs.map (·.1))

namespace Pass

theorem find?_eq_none_of_notMem {xs : List (String × Signal α)} {key : String}
    (h : key ∉ xs.map (·.1)) : xs.find? (·.1 == key) = none := by
  rw [List.find?_eq_none]
  intro e he hkey
  exact h (eq_of_beq hkey ▸ List.mem_map_of_mem he)

theorem feed_lacks {m : Model α} {inputs : Inputs α} {key : String} (h : inputs.Lacks m key) :
    feed m inputs key = .error (.missingInput key (m.portInputs.contains key)) := by
  have hgiven : given m inputs key =
      .error (.missingInput key (m.portInputs.contains key)) := by
    cases inputs with
    | single x =>
        have hport : m.portInputs.contains key = true := List.contains_iff_mem.mpr h
        simp only [given, hport, if_true]
    | named xs =>
        obtain ⟨hkey, hport | ⟨-, hinput⟩⟩ := h
        · have hport : m.portInputs.contains key = true := List.contains_iff_mem.mpr hport
          simp only [given, find?_eq_none_of_notMem hkey, hport, if_true]
          cases xs.find? (·.1 == modelInput) <;> rfl
        · simp only [given, find?_eq_none_of_notMem hkey, find?_eq_none_of_notMem hinput]
  rw [feed, hgiven]
  rfl

variable [Scalar α]

/-- Where a pass ends that can read nothing under a key: at a layer before the one that reads it, at
a feed before it, or at that feed. -/
inductive Halts (m : Model α) (inputs : Inputs α) (mode : PassMode) (earlier : List (Layer α))
    (before : List String) (key : String) : Fault → List (Visit α) → Prop where
  | layer {visits : List (Visit α)} {K : Layer α} {back : List (Layer α)} {fault : Fault}
      {g g' : Generator} (layers : earlier = visits.map (·.layer) ++ K :: back)
      (fails : (visit m inputs mode visits K).run g = (.error fault, g')) :
      Halts m inputs mode earlier before key fault visits
  | feed {visits : List (Visit α)} {front back : List String} {other : String} {fault : Fault}
      (layers : visits.map (·.layer) = earlier) (feeds : before = front ++ other :: back)
      (reads : ∀ k ∈ front, ∃ x, argument m inputs visits k = .ok x)
      (fails : argument m inputs visits other = .error fault) :
      Halts m inputs mode earlier before key fault visits
  | key {visits : List (Visit α)} (layers : visits.map (·.layer) = earlier)
      (reads : ∀ k ∈ before, ∃ x, argument m inputs visits k = .ok x) :
      Halts m inputs mode earlier before key
        (.missingInput key (m.portInputs.contains key)) visits

/-- Feeds are read one after the other, up to one before the key or up to the key. -/
theorem Halts.of_arguments {m : Model α} {inputs : Inputs α} (mode : PassMode)
    {earlier : List (Layer α)} {L : Layer α} {before after : List String} {key : String}
    {visits : List (Visit α)} (hvisits : visits.map (·.layer) = earlier)
    (hfeeds : L.feeds = before ++ key :: after)
    (hkey : argument m inputs visits key =
      .error (.missingInput key (m.portInputs.contains key))) :
    ∃ fault, argumentsOf m inputs visits L = .error fault ∧
      Halts m inputs mode earlier before key fault visits := by
  rw [argumentsOf_eq, hfeeds]
  cases hargs : (before ++ key :: after).mapM (argument m inputs visits) with
  | ok xs =>
      obtain ⟨x, -, hx⟩ := exists_mem_of_mapM hargs (List.mem_append_right _ List.mem_cons_self)
      cases hkey.symm.trans hx
  | error fault =>
      refine ⟨fault, rfl, ?_⟩
      obtain ⟨front, other, back, hsplit, hreads, hfails⟩ := mapM_eq_error.mp hargs
      -- the key comes not after the first feed that fails, for it fails itself
      rcases List.append_eq_append_iff.mp hsplit with ⟨mid, hfront, hrest⟩ | ⟨mid, hbefore, hrest⟩
      · cases mid with
        | nil =>
            obtain ⟨rfl, -⟩ := List.cons.inj hrest
            rw [List.append_nil] at hfront
            obtain rfl := Except.error.inj (hkey.symm.trans hfails)
            exact .key hvisits (hfront ▸ hreads)
        | cons k mid =>
            obtain ⟨rfl, -⟩ := List.cons.inj hrest
            obtain ⟨x, hx⟩ := hreads key (hfront ▸ List.mem_append_right _ List.mem_cons_self)
            cases hkey.symm.trans hx
      · cases mid with
        | nil =>
            obtain ⟨rfl, -⟩ := List.cons.inj hrest
            rw [List.append_nil] at hbefore
            obtain rfl := Except.error.inj (hkey.symm.trans hfails)
            exact .key hvisits (hbefore ▸ hreads)
        | cons k mid =>
            obtain ⟨rfl, -⟩ := List.cons.inj hrest
            exact .feed hvisits hbefore hreads hfails

theorem visit_eq_error {m : Model α} {inputs : Inputs α} {visits : List (Visit α)}
    {L : Layer α} {k : Kernel} {fault : Fault} (hk : Kernel.ofKind? L.kind = some k)
    (h : argumentsOf m inputs visits L = .error fault) (mode : PassMode) (g : Generator) :
    (visit m inputs mode visits L).run g = (.error fault, g) := by
  simp only [visit, hk]
  exact run_lift_bind_eq_error.mpr (.inl ⟨h, rfl⟩)

/-- Layers stop running at one that reads a key under which there is nothing, if not before. -/
theorem visitAll_halts {m : Model α} {inputs : Inputs α} (mode : PassMode)
    {earlier : List (Layer α)} (later : List (Layer α)) {L : Layer α} {k : Kernel}
    {before after : List String} {key : String} (hk : Kernel.ofKind? L.kind = some k)
    (hfeeds : L.feeds = before ++ key :: after)
    (hkey : ∀ visits, visits.map (·.layer) = earlier →
      argument m inputs visits key = .error (.missingInput key (m.portInputs.contains key)))
    (g : Generator) :
    ∃ fault, (visitAll m inputs mode (earlier ++ L :: later) [] g).2.1 = some fault ∧
      Halts m inputs mode earlier before key fault
        (visitAll m inputs mode (earlier ++ L :: later) [] g).1 := by
  obtain ⟨new, hvisits, hcourse⟩ := visitAll_course m inputs mode earlier [] g
  rw [List.nil_append] at hvisits
  rcases hrun : visitAll m inputs mode earlier [] g with ⟨visits, fault?, g'⟩
  rw [hrun] at hvisits hcourse
  obtain rfl : visits = new := hvisits
  cases fault? with
  | some fault =>
      have hall : visitAll m inputs mode (earlier ++ L :: later) [] g =
          (visits, some fault, g') := by
        rw [visitAll_append, hrun]
      rw [hall]
      cases hcourse with
      | stopped layers fails => exact ⟨fault, rfl, .layer layers fails⟩
  | none =>
      cases hcourse with
      | through layers =>
          obtain ⟨fault, hargs, hhalts⟩ :=
            Halts.of_arguments mode layers hfeeds (hkey visits layers)
          have hall : visitAll m inputs mode (earlier ++ L :: later) [] g =
              (visits, some fault, g') := by
            rw [visitAll_append, hrun]
            dsimp only
            rw [visitAll, visit_eq_error hk hargs]
          rw [hall]
          exact ⟨fault, rfl, hhalts⟩

end Pass

/-! ## Compiled models -/

namespace Compilation

variable [Scalar α] {catalog : Catalog} {g : Graph} {m : Model α}

/-- Layers go by the ids of nodes. -/
theorem Compiled.mem_nodes (h : Compiled catalog g m) {L : Layer α} (hL : L ∈ m.layers) :
    L.id ∈ g.nodes.map (·.id) := by
  obtain ⟨earlier, later, hsplit⟩ := List.append_of_mem hL
  obtain ⟨n, k, d, fed, hmade⟩ := h.made earlier L later hsplit
  rw [← Plan.node?_id hmade.node]
  exact List.mem_map_of_mem (mem_knownNodes (List.mem_of_find?_eq_some hmade.node))

/-- No layer goes by the key of a port, and none by a key that is lacking. -/
theorem Compiled.notMem_of_lacks (h : Compiled catalog g m)
    (hundotted : ∀ n ∈ g.nodes, '.' ∉ n.id.toList) (hports : ∀ key ∈ m.portInputs, '.' ∈ key.toList)
    {inputs : Inputs α} {key : String} (hkey : inputs.Lacks m key) :
    key ∉ m.layers.map (·.id) := by
  have hport : key ∈ m.portInputs → key ∉ m.layers.map (·.id) := by
    intro hport hlayer
    obtain ⟨L, hL, rfl⟩ := List.mem_map.mp hlayer
    obtain ⟨n, hn, hid⟩ := List.mem_map.mp (h.mem_nodes hL)
    exact hundotted n hn (hid ▸ hports _ hport)
  cases inputs with
  | single x => exact hport hkey
  | named xs => exact hkey.2.elim hport fun h => h.1

/-- A batch that is given alone is bound as the input of the model is, and, where no port is read,
as if it were named for everything that is read. In a graph whose ids hold no dots nothing is ever
bound to a feed that nothing is given for: the pass ends in a fault there, if not before. -/
theorem compile_binds {seed : Value} {input : Option InputSpec}
    (h : (compile catalog seed g input).1 = .ok m) (mode : PassMode) (gen : Generator) :
    (∀ x, Pass.isUnbatched m x = false →
      m.run (.single x) mode gen = m.run (.named [(modelInput, x)]) mode gen ∧
        ((∀ key, m.Awaits key → key ∉ m.portInputs) → ∀ xs : List (String × Signal α),
          (∀ key, m.Awaits key → (xs.find? (·.1 == key)).map (·.2) = some x) →
            m.run (.named xs) mode gen = m.run (.single x) mode gen)) ∧
    ((∀ n ∈ g.nodes, '.' ∉ n.id.toList) → ∀ inputs earlier L later before key after,
      m.layers = earlier ++ L :: later → L.feeds = before ++ key :: after → inputs.Lacks m key →
        ∃ fault, (m.run inputs mode gen).fault? = some fault ∧
          Pass.Halts m (Forward.fed ⟨m, inputs, mode, gen⟩) mode earlier before key fault
            (m.run inputs mode gen).visits ∧
          ∀ visits : List (Pass.Visit α), visits.map (·.layer) <+: m.layers →
            Pass.argument m (Forward.fed ⟨m, inputs, mode, gen⟩) visits key =
              .error (.missingInput key (m.portInputs.contains key))) := by
  have hports := compile_dotted h
  have hinput : modelInput ∉ m.portInputs := fun hmem =>
    absurd (hports modelInput hmem) (by decide)
  refine ⟨fun x hx => ⟨Model.run_single hinput hx mode gen, ?_⟩, ?_⟩
  · intro hnone xs hxs
    exact Model.run_named hnone hx hxs mode gen
  intro hundotted inputs earlier L later before key after hsplit hfeeds hlacks
  have hc := compile_compiled h
  have hnew := hc.notMem_of_lacks hundotted hports hlacks
  have hfed : (Forward.fed ⟨m, inputs, mode, gen⟩).Lacks m key := by
    cases inputs with
    | single x => exact hlacks
    | named xs => exact hlacks
  have hkey : ∀ visits : List (Pass.Visit α), visits.map (·.layer) <+: m.layers →
      Pass.argument m (Forward.fed ⟨m, inputs, mode, gen⟩) visits key =
        .error (.missingInput key (m.portInputs.contains key)) := by
    intro visits hvisits
    rw [Pass.argument_eq_feed, Pass.feed_lacks hfed]
    intro hmem
    apply hnew
    have hsub := (hvisits.map (·.id)).subset
    rw [List.map_map] at hsub
    exact hsub hmem
  obtain ⟨n, k, d, fed, hmade⟩ := hc.made earlier L later hsplit
  have hbegin : earlier <+: m.layers := by
    rw [hsplit]
    exact List.prefix_append earlier (L :: later)
  obtain ⟨fault, hfault, hhalts⟩ := Pass.visitAll_halts mode later (hmade.kind ▸ hmade.kernel)
    hfeeds (fun visits hvisits => hkey visits (hvisits ▸ hbegin)) gen
  rw [← hsplit] at hfault hhalts
  have hrun := Forward.pass_eq ⟨m, inputs, mode, gen⟩
  rw [Forward.pass] at hrun
  rw [hrun]
  exact ⟨fault, hfault, hhalts, hkey⟩

/-- Samples that feed one layer, and another layer that nothing feeds. -/
def primary : Graph :=
  let node (id blockType : String) (params : Entries) : Node :=
    ⟨id, blockType, params, .null, false, .null, []⟩
  { nodes := [node "data" "DataLoader" [(.text "dataset", .text "iris")], node "flat" "Flatten" [],
      node "norm" "LayerNorm" []]
    connections := [⟨.null, "data", .text "data", "flat", .text "input", .null, .null, []⟩] }

/-- Two samples with four features. -/
def fourFeatures : Signal Float := .real (Tensor.filled [2, 4] 0)

/-- Two samples are bound alone as they are by name; labels that are not given stop a pass. -/
theorem compile_binds_samples :
    (∃ m : Model Float, (compile Stock.catalog (.int 0) primary none).1 = .ok m ∧
      m.layers.map (·.feeds) = [["data"], ["__input__"]] ∧
      Pass.isUnbatched m fourFeatures = false ∧ ∀ mode gen,
        m.run (.single fourFeatures) mode gen =
          m.run (.named [("__input__", fourFeatures)]) mode gen ∧
        m.run (.named [("__input__", fourFeatures), ("data", fourFeatures)]) mode gen =
          m.run (.single fourFeatures) mode gen) ∧
    ∃ m : Model Float, (compile Stock.catalog (.int 0) (labelled "Flatten") none).1 = .ok m ∧
      ∀ mode gen, (m.run (.single fourFeatures) mode gen).fault? =
        some (.missingInput "data.labels" true) := by
  have hprimary : ((compile Stock.catalog (.int 0) primary none).1.toOption.map
      fun m : Model Float => (m.layers.map (·.feeds), m.portInputs,
        Pass.isUnbatched m fourFeatures)) = some ([["data"], ["__input__"]], [], false) := by
    decide +kernel
  have hlabels : ((compile Stock.catalog (.int 0) (labelled "Flatten") none).1.toOption.map
      fun m : Model Float => (m.layers.map (·.feeds), m.portInputs)) =
        some ([["data.labels"]], ["data.labels"]) := by
    decide +kernel
  constructor
  · obtain ⟨m, hm, hfacts⟩ := Option.map_eq_some_iff.mp hprimary
    simp only [Prod.mk.injEq] at hfacts
    obtain ⟨hfeeds, hports, hx⟩ := hfacts
    have hok := toOption_eq_some.mp hm
    refine ⟨m, hok, hfeeds, hx, fun mode gen => ?_⟩
    obtain ⟨hsingle, hnamed⟩ := (compile_binds hok mode gen).1 fourFeatures hx
    refine ⟨hsingle, hnamed ?_ _ ?_⟩
    · intro key _
      rw [hports]
      exact List.not_mem_nil
    · intro key hkey
      obtain ⟨feeds, hmem, hkey⟩ := hkey.exists_feeds
      rw [hfeeds] at hmem
      rcases List.mem_pair.mp hmem with rfl | rfl
      · obtain rfl := List.mem_singleton.mp hkey
        rfl
      · obtain rfl := List.mem_singleton.mp hkey
        rfl
  · obtain ⟨m, hm, hfacts⟩ := Option.map_eq_some_iff.mp hlabels
    obtain ⟨hfeeds, hports⟩ := Prod.mk.inj hfacts
    have hok := toOption_eq_some.mp hm
    obtain ⟨L, hlayers, hL⟩ := List.map_eq_singleton_iff.mp hfeeds
    have hlacks : (Inputs.single fourFeatures).Lacks m "data.labels" := by
      rw [Inputs.Lacks, hports]
      exact List.mem_singleton_self _
    refine ⟨m, hok, fun mode gen => ?_⟩
    obtain ⟨fault, hfault, hhalts, -⟩ := (compile_binds hok mode gen).2
      (labelled_plainIds _).undotted (.single fourFeatures) [] L [] [] "data.labels" [] hlayers hL
      hlacks
    refine hfault.trans ?_
    cases hhalts with
    | layer layers => exact absurd layers (by simp)
    | feed _ feeds => exact absurd feeds (by simp)
    | key =>
        rw [hports]
        rfl

end Compilation

end BlockNet
