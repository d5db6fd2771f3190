import BlockNet.Graph.Validation
import BlockNet.Proofs.Compilation.Wiring

/-! # Connections that become feeds

The feeds of a layer stem one by one from connections into its node, unless nothing feeds it and it
reads the input of the model. A source outside the model must have the port that a connection names.
The port of a layer and the port that a connection leads to are not looked up, so all ports are real
just when a check of the connections misses none. -/

namespace BlockNet

/-! ## What a check says about ports -/

theorem judgeShapes_code {produced expected : TensorShape} {code : ErrorCode} {error : String}
    {index : Option Nat} (h : judgeShapes produced expected = .refused code error index) :
    code ≠ .portNotFound := by
  rw [judgeShapes] at h
  split at h
  · cases hverdict : produced.verdict expected with
    | fits => simp [hverdict, ShapeVerdict.code?] at h
    | fitsLater => simp [hverdict, ShapeVerdict.code?] at h
    | ranksDiffer m n =>
        simp only [hverdict, ShapeVerdict.code?, ShapeVerdict.message?] at h
        cases h
        exact fun h => nomatch h
    | sizesDiffer i m n =>
        simp only [hverdict, ShapeVerdict.code?, ShapeVerdict.message?] at h
        cases h
        exact fun h => nomatch h
  · cases h
    exact fun h => nomatch h

/-- A check misses a port between nodes of known types just when one of the two is not there. -/
theorem validateConnection_portNotFound_iff {catalog : Catalog} {source target : Node}
    {d e : BlockDefinition} (hd : catalog.get? source.blockType = some d)
    (he : catalog.get? target.blockType = some e) (port port' : Value) :
    (∃ error index, validateConnection catalog source port target port' =
        .ok (.refused .portNotFound error index)) ↔
      ¬((d.outputPort? port).isSome ∧ (e.inputPort? port').isSome) := by
  simp only [validateConnection, hd, he]
  cases houtput : d.outputPort? port with
  | none => simp [refusePort]
  | some output =>
      cases hinput : e.inputPort? port' with
      | none => simp [refusePort]
      | some expected =>
          simp only [Option.isSome_some, and_self, not_true_eq_false, iff_false]
          rintro ⟨error, index, h⟩
          obtain ⟨shape, -, h⟩ := bind_eq_ok.mp h
          cases shape with
          | ok produced => exact judgeShapes_code (Except.ok.inj h) rfl
          | error text => cases Except.ok.inj h

namespace Compilation

open List

variable {α : Type}

/-! ## Stems -/

/-- Both ports of a connection between known nodes are there, each on its side. -/
def Plan.Real (plan : Plan) (c : Connection) : Prop :=
  ∃ source target d e, plan.node? c.source = some source ∧ plan.node? c.target = some target ∧
    plan.catalog.get? source.blockType = some d ∧ plan.catalog.get? target.blockType = some e ∧
    (d.outputPort? c.sourcePort).isSome ∧ (e.inputPort? c.targetPort).isSome

/-- A check of a connection between known nodes misses a port. -/
def Plan.Misses (plan : Plan) (c : Connection) : Prop :=
  ∃ source target error index, plan.node? c.source = some source ∧
    plan.node? c.target = some target ∧
    validateConnection plan.catalog source c.sourcePort target c.targetPort =
      .ok (.refused .portNotFound error index)

/-- A check misses no port of a connection between known nodes just when both are there. -/
theorem Plan.real_iff {plan : Plan} {c : Connection} {source target : Node}
    {d e : BlockDefinition} (hsource : plan.node? c.source = some source)
    (htarget : plan.node? c.target = some target)
    (hd : plan.catalog.get? source.blockType = some d)
    (he : plan.catalog.get? target.blockType = some e) : plan.Real c ↔ ¬plan.Misses c := by
  have hreal : plan.Real c ↔
      (d.outputPort? c.sourcePort).isSome ∧ (e.inputPort? c.targetPort).isSome := by
    simp [Plan.Real, hsource, htarget, hd, he]
  have hmisses : plan.Misses c ↔ ∃ error index,
      validateConnection plan.catalog source c.sourcePort target c.targetPort =
        .ok (.refused .portNotFound error index) := by
    simp [Plan.Misses, hsource, htarget]
  rw [hreal, hmisses, validateConnection_portNotFound_iff hd he, not_not]

/-- The connections that feed a node, as many as its kernel takes: those with an origin in the
layers before it or outside of the model. -/
def Plan.stems (plan : Plan) (k : Kernel) (d : BlockDefinition) (n : Node)
    (earlier : List (Layer α)) : List Connection :=
  limited k ((plan.incoming d n).filter fun c => (origin? plan.catalog plan.node?
    (fun c => (earlier.map (·.id)).contains c.source) c).isSome)

/-- A connection carries what stands under a key: the output of a layer before, or what a source
outside the model gives on the port that the connection names. -/
inductive Plan.Carries (plan : Plan) (earlier : List (Layer α)) (c : Connection) :
    String → Prop where
  | layer {K : Layer α} (hK : K ∈ earlier) (hsource : K.id = c.source) :
      Carries plan earlier c K.id
  | outside {d : BlockDefinition} {source : Node} (hsource : plan.node? c.source = some source)
      (hd : plan.catalog.get? source.blockType = some d) (hquiet : d.computational = false)
      (hport : (d.outputPort? c.sourcePort).isSome) :
      Carries plan earlier c (feedKey d source c.sourcePort)

theorem forall₂_filterMap {β γ : Type} (f : β → Option γ) (xs : List β) :
    Forall₂ (fun x y => f x = some y) (xs.filter fun x => (f x).isSome) (xs.filterMap f) := by
  induction xs with
  | nil => exact .nil
  | cons x xs ih =>
      cases hx : f x with
      | none => simpa [List.filter_cons, List.filterMap_cons, hx] using ih
      | some y =>
          simp only [List.filter_cons, List.filterMap_cons, hx, Option.isSome_some, if_true]
          exact .cons hx ih

theorem forall₂_limited {β γ : Type} {R : β → γ → Prop} {xs : List β} {ys : List γ}
    (h : Forall₂ R xs ys) (k : Kernel) : Forall₂ R (limited k xs) (limited k ys) := by
  rw [limited, limited]
  split
  · exact h
  · exact forall₂_take _ h

theorem limited_nil {β : Type} (k : Kernel) : limited k ([] : List β) = [] := by
  cases k <;> rfl

theorem limited_singleton {β : Type} (k : Kernel) (x : β) : limited k [x] = [x] := by
  cases k <;> rfl

theorem contains_of_mem_knownNodes {catalog : Catalog} {nodes : List Node} {n : Node}
    (h : n ∈ knownNodes catalog nodes) : catalog.contains n.blockType = true := by
  rcases mem_foldl_putNode h with hn | hn
  · cases hn
  · exact (List.mem_filter.mp hn).2

/-- A layer is fed from connections into its node, one by one, or from the input of the model where
there are none. -/
structure Stemmed (plan : Plan) (earlier : List (Layer α)) (L : Layer α) (cs : List Connection) :
    Prop where
  mem : ∀ c ∈ cs, c ∈ plan.connections ∧ c.target = L.id
  feeds : if cs = [] then L.feeds = [modelInput] else Forall₂ (plan.Carries earlier) cs L.feeds

section Compiled

variable [Scalar α] {catalog : Catalog} {g : Graph} {m : Model α} {plan : Plan}
  {earlier : List (Layer α)} {L : Layer α} {n : Node} {k : Kernel} {d : BlockDefinition}
  {fed : List (Origin × TensorShape)}

omit [Scalar α] in
theorem mem_stems {c : Connection} (h : c ∈ plan.stems k d n earlier) :
    c ∈ plan.connections ∧ c.target = n.id ∧ (plan.node? c.source).isSome :=
  mem_incoming.mp (List.mem_filter.mp (mem_of_mem_limited h)).1

omit [Scalar α] in
/-- A connection carries the key of its origin. -/
theorem carries_of_origin? {c : Connection} {o : Origin}
    (h : origin? plan.catalog plan.node?
      (fun c => (earlier.map (·.id)).contains c.source) c = some o) :
    plan.Carries earlier c o.key := by
  rw [origin?] at h
  split at h
  · cases h
  rename_i source hsource
  split at h
  · rename_i hready
    obtain ⟨K, hK, hid⟩ := List.mem_map.mp (List.contains_iff_mem.mp hready)
    rw [← Option.some.inj h, Origin.key, ← hid]
    exact .layer hK hid
  · split at h
    · cases h
    rename_i e hd
    split at h
    · cases h
    rename_i hquiet
    obtain ⟨output, hport, rfl⟩ := Option.map_eq_some_iff.mp h
    exact .outside hsource hd (Bool.eq_false_iff.mpr hquiet) (by rw [hport]; rfl)

theorem Made.stemmed (h : Made plan earlier L n k d fed) :
    Stemmed plan earlier L (plan.stems k d n earlier) := by
  have hid : n.id = L.id := Plan.node?_id h.node
  constructor
  · intro c hc
    obtain ⟨hmem, htarget, -⟩ := mem_stems hc
    exact ⟨hmem, htarget.trans hid⟩
  · have hcarried := forall₂_limited (forall₂_filterMap (origin? plan.catalog plan.node?
      fun c => (earlier.map (·.id)).contains c.source) (plan.incoming d n)) k
    have hfeeds : L.feeds = (fed.map (·.1)).map Origin.key := by
      rw [h.feeds, List.map_map]
      rfl
    rw [h.origins, orInput] at hfeeds
    rw [← Plan.stems] at hcarried
    split at hfeeds
    · rename_i hnone
      rw [List.isEmpty_iff.mp hnone, limited_nil, forall₂_nil_right_iff] at hcarried
      rw [if_pos hcarried, hfeeds, limited_singleton]
      rfl
    · rename_i hsome
      have hstems : plan.stems k d n earlier ≠ [] := by
        intro hnone
        rw [hnone, forall₂_nil_left_iff] at hcarried
        exact limited_ne_nil k (mt List.isEmpty_iff.mpr hsome) hcarried
      rw [if_neg hstems, hfeeds, forall₂_map_right_iff]
      exact hcarried.imp fun _ _ => carries_of_origin?

/-- The feeds of a layer stem one by one from connections into its node, but for the input of the
model where there are none. Their ports are all there if and only if a check of these connections
misses none. -/
theorem compile_stems {seed : Value} {input : Option InputSpec}
    (h : (compile catalog seed g input).1 = .ok m) (earlier : List (Layer α)) (L : Layer α)
    (later : List (Layer α)) (hsplit : m.layers = earlier ++ L :: later) :
    ∃ n k d, (planOf catalog g m).node? L.id = some n ∧ Kernel.ofKind? n.blockType = some k ∧
      catalog.get? n.blockType = some d ∧
      Stemmed (planOf catalog g m) earlier L ((planOf catalog g m).stems k d n earlier) ∧
      ((∀ c ∈ (planOf catalog g m).stems k d n earlier, (planOf catalog g m).Real c) ↔
        ∀ c ∈ (planOf catalog g m).stems k d n earlier, ¬(planOf catalog g m).Misses c) := by
  obtain ⟨n, k, d, fed, hmade⟩ := (compile_compiled h).made earlier L later hsplit
  refine ⟨n, k, d, hmade.node, hmade.kernel, hmade.definition, hmade.stemmed, ?_⟩
  refine forall₂_congr fun c hc => ?_
  obtain ⟨-, htarget, hsource⟩ := mem_stems hc
  obtain ⟨source, hsource⟩ := Option.isSome_iff_exists.mp hsource
  obtain ⟨e, he⟩ := Option.isSome_iff_exists.mp
    (contains_of_mem_knownNodes (List.mem_of_find?_eq_some hsource))
  rw [Plan.node?_id hmade.node] at htarget
  exact Plan.real_iff hsource (htarget ▸ hmade.node) he hmade.definition

end Compiled

theorem compile_stems_feedback : ∃ (m : Model Float) (norm act flat : Layer Float),
    (compile Stock.catalog (.int 0) feedback none).1 = .ok m ∧
      m.layers = [norm] ++ act :: [flat] ∧ act.id = "act" ∧ act.feeds = ["norm"] ∧
      ∃ n k d, (planOf Stock.catalog feedback m).node? act.id = some n ∧
        Kernel.ofKind? n.blockType = some k ∧ Stock.catalog.get? n.blockType = some d ∧
        Stemmed (planOf Stock.catalog feedback m) [norm] act
          ((planOf Stock.catalog feedback m).stems k d n [norm]) ∧
        ((∀ c ∈ (planOf Stock.catalog feedback m).stems k d n [norm],
            (planOf Stock.catalog feedback m).Real c) ↔
          ∀ c ∈ (planOf Stock.catalog feedback m).stems k d n [norm],
            ¬(planOf Stock.catalog feedback m).Misses c) := by
  have hrun : ((compile Stock.catalog (.int 0) feedback none).1.toOption.map
      fun m : Model Float => m.layers.map fun l => (l.id, l.feeds)) =
        some [("norm", ["__input__"]), ("act", ["norm"]), ("flat", ["data.labels"])] := by
    decide +kernel
  obtain ⟨m, hm, hlayers⟩ := Option.map_eq_some_iff.mp hrun
  have hok := toOption_eq_some.mp hm
  obtain ⟨norm, rest, hsplit, -, hrest⟩ := List.map_eq_cons_iff.mp hlayers
  obtain ⟨act, last, rfl, hact, hlast⟩ := List.map_eq_cons_iff.mp hrest
  obtain ⟨flat, rfl, -⟩ := List.map_eq_singleton_iff.mp hlast
  obtain ⟨hid, hfeeds⟩ := Prod.mk.inj hact
  exact ⟨m, norm, act, flat, hok, hsplit, hid, hfeeds, compile_stems hok [norm] act [flat] hsplit⟩

/-- A connection from a port that a layer does not have. -/
def misported : Graph :=
  let node (id blockType : String) : Node := ⟨id, blockType, [], .null, false, .null, []⟩
  { nodes := [node "first" "Flatten", node "second" "Activation"]
    connections := [⟨.null, "first", .text "bogus", "second", .text "input", .null, .null, []⟩] }

/-- The layer is fed all the same. -/
theorem misported_fed : ∃ m : Model Float,
    (compile Stock.catalog (.int 0) misported (some (.sizes (.list [.int 2, .int 2])))).1 = .ok m ∧
      (m.layers.map fun l => (l.id, l.feeds)) =
        [("first", ["__input__"]), ("second", ["first"])] ∧
      ∀ c ∈ misported.connections, ¬(planOf Stock.catalog misported m).Real c := by
  have hrun : ((compile Stock.catalog (.int 0) misported
      (some (.sizes (.list [.int 2, .int 2])))).1.toOption.map
        fun m : Model Float => m.layers.map fun l => (l.id, l.feeds)) =
          some [("first", ["__input__"]), ("second", ["first"])] := by
    decide +kernel
  obtain ⟨m, hm, hfeeds⟩ := Option.map_eq_some_iff.mp hrun
  refine ⟨m, toOption_eq_some.mp hm, hfeeds, ?_⟩
  intro c hc
  obtain rfl := List.mem_singleton.mp hc
  rintro ⟨source, target, d, e, hsource, -, hd, -, hport, -⟩
  have hfirst : source.blockType = "Flatten" := by
    rw [← Option.some.inj hsource]
  rw [hfirst] at hd
  rw [← Option.some.inj hd] at hport
  exact Bool.false_ne_true hport

end Compilation

end BlockNet
