import BlockNet.Proofs.Model.Binding

/-! # What layers are given

Where feeds cannot be mistaken for each other, a layer is given under each key just what it was
compiled for: the output of the layer behind the key, or what is given for the port behind it, in
the shape of that port. -/

namespace BlockNet

variable {α : Type}

namespace Compilation

open List

/-- What an origin gives to a layer that was compiled for a shape, after some visits: the output of
a layer of that shape, or what is given for the origin from outside, in that shape. -/
inductive Origin.Bound (m : Model α) (inputs : Inputs α) (visits : List (Pass.Visit α)) :
    Origin → TensorShape → Outcome (Signal α) → Prop where
  | layer {v : Pass.Visit α} (hv : v ∈ visits) :
      Bound m inputs visits (.layer v.layer.id) v.layer.outputShape (.ok v.output)
  | outside {d : BlockDefinition} {source : Node} {port : Value} {shape : TensorShape} :
      Bound m inputs visits (.outside d source port) shape
        (Pass.given m inputs (feedKey d source port) >>= (Pass.conform · shape))
  | input : Bound m inputs visits .input m.inputShape
      (Pass.given m inputs modelInput >>= (Pass.conform · m.inputShape))

theorem feed_of_expected {m : Model α} {key : String} {shape : TensorShape}
    (h : Pass.expected? m key = some shape) (inputs : Inputs α) :
    Pass.feed m inputs key = Pass.given m inputs key >>= (Pass.conform · shape) := by
  simp only [Pass.feed, h]

section Compiled

variable [Scalar α] {catalog : Catalog} {g : Graph} {m : Model α}

/-- Under the key of an origin stands what the origin gives. -/
theorem Compiled.bound (h : Compiled catalog g m) (hkeys : Unambiguous catalog g)
    (hfree : ∀ n, IsLayer catalog g n → n.id ≠ modelInput) {earlier later : List (Layer α)}
    {L : Layer α} (hsplit : m.layers = earlier ++ L :: later) {n : Node} {k : Kernel}
    {d : BlockDefinition} {fed : List (Origin × TensorShape)}
    (hmade : Made (planOf catalog g m) earlier L n k d fed) {inputs : Inputs α}
    {visits : List (Pass.Visit α)} (hvisits : visits.map (·.layer) = earlier)
    {x : Origin × TensorShape} (hx : x ∈ fed) :
    x.1.Bound m inputs visits x.2 (Pass.argument m inputs visits x.1.key) := by
  have hids : visits.map (·.layer.id) = earlier.map (·.id) := by
    rw [← hvisits, List.map_map]
    rfl
  have hsub : earlier.map (·.id) ⊆ m.layers.map (·.id) := by
    rw [hsplit, List.map_append]
    exact List.subset_append_left _ _
  have houtside : ∀ {key : String}, key ∉ m.layers.map (·.id) →
      Pass.argument m inputs visits key = Pass.feed m inputs key := by
    intro key hkey
    apply Pass.argument_eq_feed
    rw [hids]
    exact fun hmem => hkey (hsub hmem)
  have hgives := hmade.gives x hx
  rcases x with ⟨o, shape⟩
  cases hgives with
  | layer K hK =>
      rw [← hvisits] at hK
      obtain ⟨v, hv, rfl⟩ := List.mem_map.mp hK
      have hnodup := h.nodup
      rw [hsplit, List.map_append] at hnodup
      have hread : Pass.argument m inputs visits v.layer.id = .ok v.output := by
        rw [Pass.argument, Pass.outputOf?_eq_some (hids ▸ hnodup.of_append_left) hv]
      rw [Origin.key, hread]
      exact .layer hv
  | outside e source port _ _ =>
      rw [Origin.key, houtside (h.key_notMem hkeys (hmade.produces hx)).1,
        feed_of_expected (h.expected_own hkeys hsplit hmade hx)]
      exact .outside
  | input =>
      have hexpected : Pass.expected? m modelInput = some m.inputShape := by
        rw [Pass.expected?, if_pos rfl]
      rw [Origin.key, houtside (h.modelInput_notMem hfree), feed_of_expected hexpected]
      exact .input

/-- In a graph with distinct ids the keys of outside feeds tell their sources and ports, and are no
ids of layers nor the key of the model's input, if and only if none of them clash. Then every layer
of a compiled model is given what its own origins give, in the shapes that it was compiled for,
provided no layer goes by the key of the model's input. -/
theorem compile_unambiguous (htext : catalog.TextPorts) (hids : (g.nodes.map (·.id)).Nodup) :
    (Unambiguous catalog g ↔ ¬Clash catalog g) ∧
    (Unambiguous catalog g → (∀ n, IsLayer catalog g n → n.id ≠ modelInput) →
      ∀ seed input (m : Model α), (compile catalog seed g input).1 = .ok m →
        ∀ earlier L later, m.layers = earlier ++ L :: later →
          ∃ n k d, Wired catalog g m earlier L n k d ∧
            ∀ inputs (visits : List (Pass.Visit α)), visits.map (·.layer) = earlier →
              Forall₂ (fun o s => o.Bound m inputs visits s (Pass.argument m inputs visits o.key))
                (wiring catalog g m k d L.id) L.inputShapes) := by
  refine ⟨unambiguous_iff htext hids, ?_⟩
  intro hkeys hfree seed input m h earlier L later hsplit
  have hc := compile_compiled h
  obtain ⟨n, k, d, fed, hmade⟩ := hc.made earlier L later hsplit
  refine ⟨n, k, d, hc.wired_of_made hids hsplit hmade, ?_⟩
  intro inputs visits hvisits
  rw [← hc.wiring_eq hids hsplit hmade, hmade.shapes, List.forall₂_map_left_iff,
    List.forall₂_map_right_iff, List.forall₂_same]
  exact fun x hx => hc.bound hkeys hfree hsplit hmade hvisits hx

end Compiled

theorem compile_unambiguous_feedback : Stock.catalog.TextPorts ∧
    (feedback.nodes.map (·.id)).Nodup ∧ ¬Clash Stock.catalog feedback ∧
    (∀ n, IsLayer Stock.catalog feedback n → n.id ≠ modelInput) ∧ ∃ m : Model Float,
      (compile Stock.catalog (.int 0) feedback none).1 = .ok m ∧
        ∀ earlier L later, m.layers = earlier ++ L :: later →
          ∃ n k d, Wired Stock.catalog feedback m earlier L n k d ∧
            ∀ inputs (visits : List (Pass.Visit Float)), visits.map (·.layer) = earlier →
              Forall₂ (fun o s => o.Bound m inputs visits s (Pass.argument m inputs visits o.key))
                (wiring Stock.catalog feedback m k d L.id) L.inputShapes := by
  have hids : feedback.PlainIds := ⟨by decide, by decide, by decide⟩
  have hfree : ∀ n, IsLayer Stock.catalog feedback n → n.id ≠ modelInput :=
    fun n hn => hids.free n hn.1
  obtain ⟨hiff, hbound⟩ := compile_unambiguous (α := Float) Stock.textPorts hids.distinct
  have hkeys := hids.unambiguous Stock.textPorts
  have hrun : ((compile Stock.catalog (.int 0) feedback none).1.toOption.map
      fun _ : Model Float => ()) = some () := by
    decide +kernel
  obtain ⟨m, hm, -⟩ := Option.map_eq_some_iff.mp hrun
  have hok := toOption_eq_some.mp hm
  exact ⟨Stock.textPorts, hids.distinct, hiff.mp hkeys, hfree, m, hok,
    hbound hkeys hfree (.int 0) none m hok⟩

/-- A layer that goes by the key of the labels, and another one that is fed from them. -/
def clashing : Graph :=
  let node (id blockType : String) (params : Entries) : Node :=
    ⟨id, blockType, params, .null, false, .null, []⟩
  { nodes := [node "data" "DataLoader" [(.text "dataset", .text "iris")],
      node "data.labels" "Dense" [(.text "units", .int 3)], node "act" "Activation" []]
    connections := [⟨.null, "data", .text "labels", "act", .text "input", .null, .null, []⟩] }

/-- The layer that is fed from labels is given what the other layer gives, whatever is given for the
labels. -/
theorem clashing_mistaken : (clashing.nodes.map (·.id)).Nodup ∧
    ¬Unambiguous Stock.catalog clashing ∧ ∃ m : Model Float,
      (compile Stock.catalog (.int 0) clashing none).1 = .ok m ∧
      m.layers.map (fun L => (L.id, L.feeds, L.inputShapes, L.outputShape)) =
        [("data.labels", ["__input__"], [.batched [.size 4] .float32],
            .batched [.size 3] .float32),
          ("act", ["data.labels"], [DatasetSpec.labelShape], DatasetSpec.labelShape)] ∧
      ∀ inputs (v : Pass.Visit Float), v.layer.id = "data.labels" →
        Pass.argument m inputs [v] "data.labels" = .ok v.output := by
  have hids : (clashing.nodes.map (·.id)).Nodup := by decide
  have hlabels : Produces Stock.catalog clashing Stock.dataLoader (clashing.nodes.head (by decide))
      (.text "labels") := ⟨by simp, rfl, rfl, rfl⟩
  have hbehind : ¬IsFirst Stock.dataLoader "labels" := by
    simp [IsFirst, Stock.dataLoader]
  have hdense : IsLayer Stock.catalog clashing (clashing.nodes[1]) := ⟨by simp, rfl⟩
  have hclash : Clash Stock.catalog clashing := .taken hlabels hbehind (.inl hdense) rfl
  have hrun : ((compile Stock.catalog (.int 0) clashing none).1.toOption.map fun m : Model Float =>
      m.layers.map fun L => (L.id, L.feeds, L.inputShapes, L.outputShape)) =
        some [("data.labels", ["__input__"], [.batched [.size 4] .float32],
            .batched [.size 3] .float32),
          ("act", ["data.labels"], [DatasetSpec.labelShape], DatasetSpec.labelShape)] := by
    decide +kernel
  obtain ⟨m, hm, hlayers⟩ := Option.map_eq_some_iff.mp hrun
  refine ⟨hids, fun h => h.not_clash Stock.textPorts hclash, m, toOption_eq_some.mp hm, hlayers, ?_⟩
  intro inputs v hv
  have hread : Pass.outputOf? [v] "data.labels" = some v.output := by
    simp [Pass.outputOf?, hv]
  rw [Pass.argument, hread]

end Compilation

end BlockNet
