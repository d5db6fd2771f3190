import BlockNet.Proofs.Compilation.Unambiguous

/-! # Keys of outside feeds

Where ids hold no dots, the key of an outside feed tells its source and its port, and it is neither
the id of a layer nor the key of the model's input. -/

namespace BlockNet

/-- Ids that cannot be mistaken for the keys of feeds: distinct, without dots, and none the key of
the model's input. -/
structure Graph.PlainIds (g : Graph) : Prop where
  distinct : (g.nodes.map (·.id)).Nodup
  undotted : ∀ n ∈ g.nodes, '.' ∉ n.id.toList
  free : ∀ n ∈ g.nodes, n.id ≠ modelInput

namespace Compilation

/-! ## Keys without dots -/

/-- The one key without dots that a source has is its id. -/
theorem feedKey_undotted {d : BlockDefinition} {source : Node} {name key : String}
    (hkey : '.' ∉ key.toList) (h : feedKey d source (.text name) = key) :
    source.id = key ∧ IsFirst d name := by
  by_cases hfirst : IsFirst d name
  · exact ⟨(feedKey_first hfirst source).symm.trans h, hfirst⟩
  · exact absurd (h.symm.trans (feedKey_behind hfirst source)) (dotted_ne hkey)

/-- A key tells its source and its port. -/
theorem feedKey_inj {d e : BlockDefinition} {a b : Node} {m n : String} (ha : '.' ∉ a.id.toList)
    (hb : '.' ∉ b.id.toList) (h : feedKey d a (.text m) = feedKey e b (.text n)) :
    a.id = b.id ∧ (d = e → m = n) := by
  by_cases hn : IsFirst e n
  · obtain ⟨hid, hm⟩ := feedKey_undotted hb (h.trans (feedKey_first hn b))
    refine ⟨hid, ?_⟩
    rintro rfl
    exact Value.text.inj (Option.some.inj (hm.symm.trans hn))
  · by_cases hm : IsFirst d m
    · obtain ⟨-, hn'⟩ := feedKey_undotted ha (h.symm.trans (feedKey_first hm a))
      exact absurd hn' hn
    · rw [feedKey_behind hm, feedKey_behind hn] at h
      obtain ⟨hid, hname⟩ := dotted_inj ha hb h
      exact ⟨hid, fun _ => hname⟩

/-- Under one key there is one shape, if no two sources share an id. -/
theorem Supplies.unique_of_key {catalog : Catalog} (htext : catalog.TextPorts)
    {d e : BlockDefinition} {a b : Node} {p q : Value} {s t : TensorShape}
    (ha : '.' ∉ a.id.toList) (hb : '.' ∉ b.id.toList) (hab : a.id = b.id → a = b)
    (hd : catalog.get? a.blockType = some d) (he : catalog.get? b.blockType = some e)
    (hs : Supplies catalog d a p s) (ht : Supplies catalog e b q t)
    (h : feedKey d a p = feedKey e b q) : s = t := by
  obtain ⟨m, rfl⟩ := outputPort?_text htext hd hs.port
  obtain ⟨n, rfl⟩ := outputPort?_text htext he ht.port
  obtain ⟨hid, hname⟩ := feedKey_inj ha hb h
  obtain rfl := hab hid
  obtain rfl := Option.some.inj (hd.symm.trans he)
  obtain rfl := hname rfl
  exact hs.unique ht

end Compilation

/-- Feeds cannot be mistaken for each other in a graph with plain ids. -/
theorem Graph.PlainIds.unambiguous {g : Graph} (hids : g.PlainIds) {catalog : Catalog}
    (htext : catalog.TextPorts) : Compilation.Unambiguous catalog g := by
  rw [Compilation.unambiguous_iff htext hids.distinct]
  rintro (⟨ha, hid⟩ | ⟨-, -, hb, hid⟩ | ⟨-, -, hb, -, hid⟩)
  · exact hids.free _ ha.mem hid
  · have hmem := hb.elim (fun hlayer => hlayer.1) fun ⟨_, _, hproduces⟩ => hproduces.mem
    exact dotted_ne (hids.undotted _ hmem) hid
  · exact dotted_ne (hids.undotted _ hb.mem) hid

namespace Compilation

/-! ## What a model expects -/

section Expected

variable {α : Type} [Scalar α] {g : Graph} {m : Model α}

theorem known?_mem {catalog : Catalog} {id : String} {n : Node}
    (h : known? catalog g id = some n) : n ∈ g.nodes ∧ n.id = id := by
  have hfound := List.find?_some (p := fun n : Node => n.id == id && catalog.contains n.blockType) h
  rw [Bool.and_eq_true] at hfound
  exact ⟨List.mem_of_find?_eq_some h, eq_of_beq hfound.1⟩

theorem kind_of_ofKind? {t : String} {k : Kernel} (h : Kernel.ofKind? t = some k) : k.kind = t :=
  eq_of_beq (List.find?_some (p := fun k : Kernel => k.kind == t) h)

theorem Compiled.modelInput_notMem {catalog : Catalog} (h : Compiled catalog g m)
    (hfree : ∀ n, IsLayer catalog g n → n.id ≠ modelInput) : modelInput ∉ m.layers.map (·.id) := by
  intro hmem
  obtain ⟨n, hn, hid⟩ := h.exists_isLayer hmem
  exact hfree n hn hid

/-- What feeds a layer from outside is expected in the shape that the layer was compiled for. -/
theorem Compiled.expected (h : Compiled Stock.catalog g m) (hids : g.PlainIds)
    {earlier later : List (Layer α)} {L : Layer α} (hsplit : m.layers = earlier ++ L :: later)
    {n : Node} {k : Kernel} {d : BlockDefinition} {fed : List (Origin × TensorShape)}
    (hmade : Made (planOf Stock.catalog g m) earlier L n k d fed) {x : Origin × TensorShape}
    (hx : x ∈ fed) : (∃ K ∈ earlier, x = (.layer K.id, K.outputShape)) ∨
      x.1.key ∉ m.layers.map (·.id) ∧ Pass.expected? m x.1.key = some x.2 := by
  have hgives := hmade.gives x hx
  rcases x with ⟨o, shape⟩
  cases hgives with
  | layer K hK => exact .inl ⟨K, hK, rfl⟩
  | input =>
      refine .inr ⟨h.modelInput_notMem fun n hn => hids.free n hn.1, ?_⟩
      rw [Pass.expected?, Origin.key, if_pos rfl]
  | outside e source port _ _ =>
      have hkeys := hids.unambiguous Stock.textPorts
      exact .inr ⟨(h.key_notMem hkeys (hmade.produces hx)).1, h.expected_own hkeys hsplit hmade hx⟩

end Expected

end Compilation

end BlockNet
