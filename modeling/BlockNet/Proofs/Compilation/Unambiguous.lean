import BlockNet.Model.Pass
import BlockNet.Proofs.Compilation.Wiring
import Mathlib.Data.List.Nodup

/-! # Feeds that cannot be mistaken for each other

The key of an outside feed is the id of its source, or that id with the name of a port behind a dot.
As ids may hold dots themselves, two feeds can come under one key. Where they do not, what a model
expects under a key is what its layers were compiled for. -/

namespace BlockNet

/-! ## Texts with dots -/

theorem eq_dotted_iff {a s t : String} :
    t = a ++ "." ++ s ↔ t.toList = a.toList ++ '.' :: s.toList := by
  rw [← String.toList_inj]
  simp

/-- Texts joined by a dot are split there in the same way, or one of them goes on to another dot. -/
theorem dotted_eq {a b s t : String} (h : a ++ "." ++ s = b ++ "." ++ t) :
    (a = b ∧ s = t) ∨ (∃ r, b = a ++ "." ++ r ∧ s = r ++ "." ++ t) ∨
      ∃ r, a = b ++ "." ++ r ∧ t = r ++ "." ++ s := by
  have hlist : a.toList ++ '.' :: s.toList = b.toList ++ '.' :: t.toList := by
    simpa using congrArg String.toList h
  -- the lists share a first part; what is left of the longer one begins with its dot
  rcases List.append_eq_append_iff.mp hlist with ⟨c, hc, hrest⟩ | ⟨c, hc, hrest⟩
  · cases c with
    | nil =>
        rw [List.append_nil] at hc
        exact .inl ⟨String.toList_inj.mp hc.symm, String.toList_inj.mp (List.cons.inj hrest).2⟩
    | cons x c =>
        obtain ⟨rfl, hs⟩ := List.cons.inj hrest
        refine .inr (.inl ⟨String.ofList c, ?_, ?_⟩)
        · rwa [eq_dotted_iff, String.toList_ofList]
        · rwa [eq_dotted_iff, String.toList_ofList]
  · cases c with
    | nil =>
        rw [List.append_nil] at hc
        exact .inl ⟨String.toList_inj.mp hc, (String.toList_inj.mp (List.cons.inj hrest).2).symm⟩
    | cons x c =>
        obtain ⟨rfl, ht⟩ := List.cons.inj hrest
        refine .inr (.inr ⟨String.ofList c, ?_, ?_⟩)
        · rwa [eq_dotted_iff, String.toList_ofList]
        · rwa [eq_dotted_iff, String.toList_ofList]

theorem dotted_ne {a b s : String} (ha : '.' ∉ a.toList) : a ≠ b ++ "." ++ s := by
  rintro rfl
  simp at ha

/-- What stands before the first dot of a text. -/
theorem dotted_inj {a b s t : String} (ha : '.' ∉ a.toList) (hb : '.' ∉ b.toList)
    (h : a ++ "." ++ s = b ++ "." ++ t) : a = b ∧ s = t := by
  rcases dotted_eq h with hsame | ⟨r, hr, -⟩ | ⟨r, hr, -⟩
  · exact hsame
  · exact absurd hr (dotted_ne hb)
  · exact absurd hr (dotted_ne ha)

theorem ne_dotted_self (a s : String) : a ≠ a ++ "." ++ s := by
  intro h
  have hlength := congrArg String.length h
  simp only [String.length_append] at hlength
  have hdot : ".".length = 1 := rfl
  omega

/-! ## Ports -/

/-- The names of all output ports are texts. -/
def Catalog.TextPorts (catalog : Catalog) : Prop :=
  ∀ d ∈ catalog.blocks, ∀ p ∈ d.outputs, ∃ name, p.name = .text name

theorem Stock.textPorts : Stock.catalog.TextPorts := by
  have hall : ∀ d ∈ Stock.definitions, ∀ p ∈ d.outputs, ∃ name, p.name = .text name := by
    simp [Stock.definitions, Stock.dataLoader, Stock.unary, Stock.binary, Stock.attention,
      Stock.loss, Stock.optimizer]
  exact hall

namespace Compilation

/-- A port is asked for by its name. -/
theorem outputPort?_text {catalog : Catalog} (htext : catalog.TextPorts) {d : BlockDefinition}
    {t : String} {port : Value} (hd : catalog.get? t = some d)
    (h : (d.outputPort? port).isSome) : ∃ name, port = .text name := by
  obtain ⟨output, h⟩ := Option.isSome_iff_exists.mp h
  obtain ⟨name, hname⟩ := htext d (List.mem_of_find?_eq_some hd) output
    (List.mem_of_find?_eq_some h)
  have hsame : output.name.sameKey port = true :=
    List.find?_some (p := fun p : Port => p.name.sameKey port) h
  rw [hname, Value.text_sameKey] at hsame
  exact ⟨name, hsame⟩

/-- A port is the first that a block gives something on. -/
def IsFirst (d : BlockDefinition) (name : String) : Prop :=
  d.outputs.head?.map (·.name) = some (.text name)

/-- The key of the first port is the id of its source. -/
theorem feedKey_first {d : BlockDefinition} {name : String} (h : IsFirst d name) (source : Node) :
    feedKey d source (.text name) = source.id := by
  obtain ⟨p, hp, hname⟩ := Option.map_eq_some_iff.mp h
  rw [feedKey, hp, Option.any_some, if_pos (Value.sameKey_text.mpr hname)]

/-- The key of another port is the id of its source and its name, with a dot. -/
theorem feedKey_behind {d : BlockDefinition} {name : String} (h : ¬IsFirst d name) (source : Node) :
    feedKey d source (.text name) = source.id ++ "." ++ name := by
  rw [feedKey, if_neg]
  · rfl
  · intro hfirst
    obtain ⟨p, hp, hsame⟩ := Option.any_eq_true _ _ |>.mp hfirst
    apply h
    rw [IsFirst, hp, Option.map_some, Value.sameKey_text.mp hsame]

/-! ## Producers -/

/-- A node of a known type that does not become a layer gives something on a port. -/
structure Produces (catalog : Catalog) (g : Graph) (d : BlockDefinition) (a : Node) (port : Value) :
    Prop where
  mem : a ∈ g.nodes
  definition : catalog.get? a.blockType = some d
  quiet : d.computational = false
  port : (d.outputPort? port).isSome

/-- A node that is to become a layer. -/
def IsLayer (catalog : Catalog) (g : Graph) (n : Node) : Prop :=
  n ∈ g.nodes ∧ catalog.isComputational n.blockType = true

/-- The keys of outside feeds tell their sources and ports, and none of them is the id of a node
that is to become a layer or the key of the model's input. -/
structure Unambiguous (catalog : Catalog) (g : Graph) : Prop where
  inj : ∀ {d e : BlockDefinition} {a b : Node} {p q : Value} {key : String},
    Produces catalog g d a p → Produces catalog g e b q →
      externalKey catalog a p = .ok key → externalKey catalog b q = .ok key → a = b ∧ p = q
  free : ∀ {d : BlockDefinition} {a : Node} {p : Value} {key : String},
    Produces catalog g d a p → externalKey catalog a p = .ok key →
      key ≠ modelInput ∧ ∀ n, IsLayer catalog g n → key ≠ n.id

/-- Two feeds under one key: a source goes by the key of the model's input, a node by the key of a
port behind a first one, or the ids of two sources and the names of two such ports are split in
different ways. -/
inductive Clash (catalog : Catalog) (g : Graph) : Prop where
  | input {d : BlockDefinition} {a : Node} {port : Value} (ha : Produces catalog g d a port)
      (hid : a.id = modelInput)
  | taken {d : BlockDefinition} {a b : Node} {name : String}
      (ha : Produces catalog g d a (.text name)) (hname : ¬IsFirst d name)
      (hb : IsLayer catalog g b ∨ ∃ e port, Produces catalog g e b port)
      (hid : b.id = a.id ++ "." ++ name)
  | nested {d e : BlockDefinition} {a b : Node} {part name : String}
      (ha : Produces catalog g d a (.text (part ++ "." ++ name)))
      (hfront : ¬IsFirst d (part ++ "." ++ name)) (hb : Produces catalog g e b (.text name))
      (hback : ¬IsFirst e name) (hid : b.id = a.id ++ "." ++ part)

section Keys

variable {catalog : Catalog} {g : Graph} {d e : BlockDefinition} {a b : Node} {p q : Value}
  {key : String}

theorem Produces.externalKey (h : Produces catalog g d a p) :
    externalKey catalog a p = .ok (feedKey d a p) := by
  rw [BlockNet.externalKey, h.definition]
  rfl

theorem Produces.name (h : Produces catalog g d a p) (htext : catalog.TextPorts) :
    ∃ name, p = .text name :=
  outputPort?_text htext h.definition h.port

/-- A source with a port has a first one, which goes by the id of the source. -/
theorem Produces.exists_first (h : Produces catalog g d a p) (htext : catalog.TextPorts) :
    ∃ name, Produces catalog g d a (.text name) ∧ feedKey d a (.text name) = a.id := by
  obtain ⟨output, houtput⟩ := Option.isSome_iff_exists.mp h.port
  obtain ⟨first, rest, hports⟩ := List.exists_cons_of_ne_nil
    (List.ne_nil_of_mem (List.mem_of_find?_eq_some houtput))
  obtain ⟨name, hname⟩ := htext d (List.mem_of_find?_eq_some h.definition) first
    (hports ▸ List.mem_cons_self)
  have hsame : first.name.sameKey (.text name) = true := Value.sameKey_text.mpr hname
  refine ⟨name, ⟨h.mem, h.definition, h.quiet, ?_⟩, ?_⟩
  · rw [BlockDefinition.outputPort?, hports]
    simp [hsame]
  · apply feedKey_first
    rw [IsFirst, hports, List.head?_cons, Option.map_some, hname]

theorem IsLayer.ne_of_produces (hids : (g.nodes.map (·.id)).Nodup) (hb : IsLayer catalog g b)
    (ha : Produces catalog g d a p) : a.id ≠ b.id := by
  intro hid
  obtain rfl := List.inj_on_of_nodup_map hids ha.mem hb.1 hid
  have hlayer := hb.2
  rw [Catalog.isComputational, ha.definition] at hlayer
  exact Bool.false_ne_true (ha.quiet.symm.trans hlayer)

/-- Keys that cannot be mistaken for each other do not clash. -/
theorem Unambiguous.not_clash (h : Unambiguous catalog g) (htext : catalog.TextPorts) :
    ¬Clash catalog g := by
  intro hclash
  cases hclash with
  | input ha hid =>
      obtain ⟨name, hfirst, hkey⟩ := ha.exists_first htext
      exact (h.free hfirst hfirst.externalKey).1 (hkey.trans hid)
  | @taken d a b name ha hname hb hid =>
      have hkey := feedKey_behind hname a
      rcases hb with hb | ⟨e, port, hb⟩
      · exact (h.free ha ha.externalKey).2 b hb (hkey.trans hid.symm)
      · obtain ⟨first, hfirst, hown⟩ := hb.exists_first htext
        have hshared : externalKey catalog b (.text first) = .ok (feedKey d a (.text name)) := by
          rw [hfirst.externalKey, hown, hid, hkey]
        obtain ⟨hsame, -⟩ := h.inj ha hfirst ha.externalKey hshared
        exact ne_dotted_self a.id name ((congrArg Node.id hsame).trans hid)
  | @nested d e a b part name ha hfront hb hback hid =>
      have hshared : externalKey catalog b (.text name) =
          .ok (feedKey d a (.text (part ++ "." ++ name))) := by
        rw [hb.externalKey, feedKey_behind hback, feedKey_behind hfront, hid]
        simp only [String.append_assoc]
      obtain ⟨hsame, -⟩ := h.inj ha hb ha.externalKey hshared
      exact ne_dotted_self a.id part ((congrArg Node.id hsame).trans hid)

/-- Equal keys are of one source and one port, unless they clash. -/
theorem Produces.eq_of_not_clash (hclash : ¬Clash catalog g) (htext : catalog.TextPorts)
    (hids : (g.nodes.map (·.id)).Nodup) (ha : Produces catalog g d a p)
    (hb : Produces catalog g e b q) (h : feedKey d a p = feedKey e b q) : a = b ∧ p = q := by
  obtain ⟨s, rfl⟩ := ha.name htext
  obtain ⟨t, rfl⟩ := hb.name htext
  by_cases hs : IsFirst d s
  · by_cases ht : IsFirst e t
    · rw [feedKey_first hs, feedKey_first ht] at h
      obtain rfl := List.inj_on_of_nodup_map hids ha.mem hb.mem h
      obtain rfl := Option.some.inj (ha.definition.symm.trans hb.definition)
      exact ⟨rfl, Option.some.inj (hs.symm.trans ht)⟩
    · rw [feedKey_first hs, feedKey_behind ht] at h
      exact absurd (.taken hb ht (.inr ⟨d, _, ha⟩) h) hclash
  · by_cases ht : IsFirst e t
    · rw [feedKey_behind hs, feedKey_first ht] at h
      exact absurd (.taken ha hs (.inr ⟨e, _, hb⟩) h.symm) hclash
    · rw [feedKey_behind hs, feedKey_behind ht] at h
      rcases dotted_eq h with ⟨hid, rfl⟩ | ⟨r, hid, rfl⟩ | ⟨r, hid, rfl⟩
      · exact ⟨List.inj_on_of_nodup_map hids ha.mem hb.mem hid, rfl⟩
      · exact absurd (.nested ha hs hb ht hid) hclash
      · exact absurd (.nested hb ht ha hs hid) hclash

/-- A key of an outside feed is no other key, unless they clash. -/
theorem Produces.free_of_not_clash (hclash : ¬Clash catalog g) (htext : catalog.TextPorts)
    (hids : (g.nodes.map (·.id)).Nodup) (ha : Produces catalog g d a p) :
    feedKey d a p ≠ modelInput ∧ ∀ n, IsLayer catalog g n → feedKey d a p ≠ n.id := by
  obtain ⟨s, rfl⟩ := ha.name htext
  by_cases hs : IsFirst d s
  · rw [feedKey_first hs]
    exact ⟨fun hid => hclash (.input ha hid), fun n hn => hn.ne_of_produces hids ha⟩
  · rw [feedKey_behind hs]
    refine ⟨(dotted_ne (by decide)).symm, fun n hn hid => hclash ?_⟩
    exact .taken ha hs (.inl hn) hid.symm

/-- Keys cannot be mistaken for each other just when none of them clash. -/
theorem unambiguous_iff (htext : catalog.TextPorts) (hids : (g.nodes.map (·.id)).Nodup) :
    Unambiguous catalog g ↔ ¬Clash catalog g := by
  constructor
  · exact fun h => h.not_clash htext
  · intro hclash
    constructor
    · intro d e a b p q key ha hb hkey hkey'
      rw [ha.externalKey] at hkey
      rw [hb.externalKey] at hkey'
      exact ha.eq_of_not_clash hclash htext hids hb
        (Except.ok.inj (hkey.trans hkey'.symm))
    · intro d a p key ha hkey
      rw [ha.externalKey] at hkey
      obtain rfl := Except.ok.inj hkey
      exact ha.free_of_not_clash hclash htext hids

end Keys

/-! ## Shapes of sources -/

/-- A source gives one shape on a port. -/
theorem Supplies.unique {catalog : Catalog} {d : BlockDefinition} {source : Node} {port : Value}
    {s t : TensorShape} (hs : Supplies catalog d source port s)
    (ht : Supplies catalog d source port t) : s = t := by
  cases hs with
  | template output hport hkind =>
      cases ht with
      | template output' hport' _ => rw [Option.some.inj (hport.symm.trans hport')]
      | samples _ _ _ _ hloader => exact absurd hloader hkind
      | labels _ hloader => exact absurd hloader hkind
  | samples params name shape _ hkind hparams hname hdata hshape =>
      cases ht with
      | template _ _ hother => exact absurd hkind hother
      | samples params' name' shape' _ _ hparams' hname' _ hshape' =>
          obtain rfl := Except.ok.inj (hparams.symm.trans hparams')
          obtain rfl := Except.ok.inj (hname.symm.trans hname')
          exact Except.ok.inj (hshape.symm.trans hshape')
      | labels _ _ hlabels => rw [hdata] at hlabels; cases hlabels
  | labels _ hkind hdata =>
      cases ht with
      | template _ _ hother => exact absurd hkind hother
      | samples _ _ _ _ _ _ _ hsamples _ => rw [hdata] at hsamples; cases hsamples
      | labels => rfl

theorem Supplies.port {catalog : Catalog} {d : BlockDefinition} {source : Node} {port : Value}
    {s : TensorShape} (h : Supplies catalog d source port s) : (d.outputPort? port).isSome := by
  cases h with
  | template _ hport => rw [hport]; rfl
  | samples _ _ _ hport => exact hport
  | labels hport => exact hport

/-! ## What a model expects -/

section Expected

variable {α : Type} {catalog : Catalog} {g : Graph} {m : Model α}

theorem Noted.produces {e : Feed} {d : BlockDefinition} {source : Node} {port : Value}
    (h : Noted (planOf catalog g m) e d source port) : Produces catalog g d source port :=
  ⟨mem_knownNodes (List.mem_of_find?_eq_some h.node), h.definition, h.quiet, h.shape.port⟩

variable [Scalar α]

theorem Made.produces {earlier : List (Layer α)} {L : Layer α} {n : Node} {k : Kernel}
    {d e : BlockDefinition} {fed : List (Origin × TensorShape)} {source : Node} {port : Value}
    {shape : TensorShape} (h : Made (planOf catalog g m) earlier L n k d fed)
    (hx : (Origin.outside e source port, shape) ∈ fed) : Produces catalog g e source port := by
  have horigin := List.mem_map_of_mem (f := (·.1)) hx
  rw [h.origins] at horigin
  have horigin := mem_of_mem_limited horigin
  rw [orInput] at horigin
  split at horigin
  · cases List.mem_singleton.mp horigin
  · obtain ⟨c, -, hc⟩ := List.mem_filterMap.mp horigin
    obtain ⟨hsource, hd, hquiet⟩ := origin?_eq_outside hc
    exact ⟨mem_knownNodes (List.mem_of_find?_eq_some hsource), hd, hquiet,
      (h.gives _ hx).supplies.port⟩

/-- The node of a layer. -/
theorem Compiled.exists_isLayer (h : Compiled catalog g m) {id : String}
    (hid : id ∈ m.layers.map (·.id)) : ∃ n, IsLayer catalog g n ∧ n.id = id := by
  obtain ⟨n, hn, rfl⟩ := List.mem_map.mp (Schedule.mem_order.mp (h.order.subset hid))
  obtain ⟨hknown, hcomp⟩ := List.mem_filter.mp hn
  exact ⟨n, ⟨mem_knownNodes hknown, hcomp⟩, rfl⟩

/-- The key of an outside feed is neither the id of a layer nor the key of the model's input. -/
theorem Compiled.key_notMem (h : Compiled catalog g m) (hkeys : Unambiguous catalog g)
    {d : BlockDefinition} {a : Node} {p : Value} (ha : Produces catalog g d a p) :
    feedKey d a p ∉ m.layers.map (·.id) ∧ feedKey d a p ≠ modelInput := by
  obtain ⟨hinput, hlayers⟩ := hkeys.free ha ha.externalKey
  refine ⟨fun hmem => ?_, hinput⟩
  obtain ⟨n, hn, hid⟩ := h.exists_isLayer hmem
  exact hlayers n hn hid.symm

/-- What feeds a layer from outside is expected in the shape that the layer was compiled for. -/
theorem Compiled.expected_own (h : Compiled catalog g m) (hkeys : Unambiguous catalog g)
    {earlier later : List (Layer α)} {L : Layer α} (hsplit : m.layers = earlier ++ L :: later)
    {n : Node} {k : Kernel} {d e : BlockDefinition} {fed : List (Origin × TensorShape)}
    (hmade : Made (planOf catalog g m) earlier L n k d fed) {source : Node} {port : Value}
    {shape : TensorShape} (hx : (Origin.outside e source port, shape) ∈ fed) :
    Pass.expected? m (feedKey e source port) = some shape := by
  have hproduces := hmade.produces hx
  obtain ⟨hlayer, hinput⟩ := h.key_notMem hkeys hproduces
  have hfeed : feedKey e source port ∈ L.feeds := by
    rw [hmade.feeds]
    exact List.mem_map_of_mem (f := fun x : Origin × TensorShape => x.1.key) hx
  have hL : L ∈ m.layers := hsplit ▸ List.mem_append_right _ List.mem_cons_self
  have hnoted := ((h.known L hL _ hfeed).resolve_left hlayer).resolve_left hinput
  obtain ⟨entry, hentry, hkey⟩ := List.mem_map.mp hnoted
  have hsome : (m.externalInputs.find? (·.1 == feedKey e source port)).isSome = true := by
    rw [List.find?_isSome]
    exact ⟨entry, hentry, beq_iff_eq.mpr hkey⟩
  obtain ⟨found, hfound⟩ := Option.isSome_iff_exists.mp hsome
  have hfoundKey : found.1 = feedKey e source port := by simpa using List.find?_some hfound
  -- what is noted under the key stems from the same source and port
  obtain ⟨e', source', port', hnoted'⟩ := h.external found (List.mem_of_find?_eq_some hfound)
  have hproduces' := hnoted'.produces
  have hshared : externalKey catalog source' port' = .ok (feedKey e source port) := by
    rw [hproduces'.externalKey, ← hnoted'.key, hfoundKey]
  obtain ⟨rfl, rfl⟩ := hkeys.inj hproduces' hproduces hshared hproduces.externalKey
  obtain rfl := Option.some.inj (hproduces'.definition.symm.trans hproduces.definition)
  rw [Pass.expected?, if_neg hinput, hfound]
  exact congrArg some (hnoted'.shape.unique (hmade.gives _ hx).supplies)

end Expected

end Compilation

end BlockNet
