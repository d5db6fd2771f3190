import BlockNet.Proofs.Compilation.Built

/-! # Passes through compiled models

A model that was compiled for settled shapes runs on batches of any size, and every layer gives what
it declared. One thing can stop it: attention that is trained with a rate that is no number. -/

namespace BlockNet

open List

variable {α : Type} [Scalar α]

/-! ## What a pass needs -/

/-- A key that a layer reads from outside the model. -/
def Model.ReadsOutside (m : Model α) (key : String) : Prop :=
  (∃ L ∈ m.layers, key ∈ L.feeds) ∧ key ∉ m.layers.map (·.id)

/-- All that is read from outside has a settled shape. -/
def Model.SettledOutside (m : Model α) : Prop :=
  ∀ key, m.ReadsOutside key → ∀ s, Pass.expected? m key = some s → ∃ sizes, s.Settled sizes

namespace Pass

/-- Tensors of one batch size under every key that is read from outside, each in the shape that is
expected there. -/
def Supplied (m : Model α) (b : Nat) (xs : List (String × Signal α)) : Prop :=
  ∀ key, m.ReadsOutside key → ∀ s sizes, expected? m key = some s → s.Settled sizes →
    ∃ e, xs.find? (·.1 == key) = some e ∧ e.2.dims = b :: sizes

/-- Visits to layers that gave batches of their declared shapes, which are settled. -/
structure Reached (b : Nat) (visits : List (Visit α)) (layers : List (Layer α)) : Prop where
  layers : visits.map (·.layer) = layers
  declared : ∀ v ∈ visits, ∃ sizes, v.layer.outputShape.Settled sizes ∧ v.output.dims = b :: sizes

omit [Scalar α] in
theorem Reached.ids {b : Nat} {visits : List (Visit α)} {layers : List (Layer α)}
    (h : Reached b visits layers) : visits.map (·.layer.id) = layers.map (·.id) := by
  rw [← h.layers, List.map_map]
  rfl

omit [Scalar α] in
theorem Reached.nodup {b : Nat} {visits : List (Visit α)} {m : Model α}
    {earlier later : List (Layer α)} (h : Reached b visits earlier)
    (hsplit : m.layers = earlier ++ later) (hnodup : (m.layers.map (·.id)).Nodup) :
    (visits.map (·.layer.id)).Nodup := by
  rw [hsplit, List.map_append] at hnodup
  exact h.ids ▸ hnodup.of_append_left

/-! ## Arguments -/

omit [Scalar α] in
theorem outputOf?_eq_some {visits : List (Visit α)}
    (hnodup : (visits.map (·.layer.id)).Nodup) {v : Visit α} (hv : v ∈ visits) :
    outputOf? visits v.layer.id = some v.output := by
  obtain ⟨front, back, rfl⟩ := List.append_of_mem hv
  rw [List.map_append, List.map_cons, List.nodup_append, List.nodup_cons] at hnodup
  have hnone : back.reverse.find? (·.layer.id == v.layer.id) = none := by
    rw [List.find?_eq_none]
    intro w hw
    rw [List.mem_reverse] at hw
    intro hid
    exact hnodup.2.1.1 (eq_of_beq hid ▸ List.mem_map_of_mem hw)
  rw [outputOf?, List.reverse_append, List.reverse_cons, List.append_assoc, List.find?_append,
    hnone, Option.none_or, List.singleton_append, List.find?_cons_of_pos (by simp)]
  rfl

omit [Scalar α] in
theorem outputOf?_eq_none {visits : List (Visit α)} {key : String}
    (h : key ∉ visits.map (·.layer.id)) : outputOf? visits key = none := by
  have hnone : visits.reverse.find? (·.layer.id == key) = none := by
    rw [List.find?_eq_none]
    intro v hv hid
    exact h (eq_of_beq hid ▸ List.mem_map_of_mem (List.mem_reverse.mp hv))
  rw [outputOf?, hnone]
  rfl

omit [Scalar α] in
/-- What is given in the expected shape is taken as it is. -/
theorem feed_eq_ok {m : Model α} {key : String} {s : TensorShape} {sizes : List Nat} {b : Nat}
    {xs : List (String × Signal α)} {e : String × Signal α} (hs : expected? m key = some s)
    (hsettled : s.Settled sizes) (hb : 0 < b) (he : xs.find? (·.1 == key) = some e)
    (hdims : e.2.dims = b :: sizes) :
    ∃ y, feed m (.named xs) key = .ok y ∧ y.dims = b :: sizes := by
  have hgiven : given m (.named xs) key = .ok e.2 := by
    simp only [given, he]
  have hpos : 0 < volume (b :: sizes) := by
    rw [volume_cons]
    exact Nat.mul_pos hb (volume_pos hsettled.positive)
  obtain ⟨y, hy, hydims⟩ := Signal.reshape_eq_ok (by rw [hdims]) hpos
  refine ⟨y, ?_, hydims⟩
  simp only [feed, hgiven, ok_bind, hs, conform, hsettled.sampleSizes, Signal.batch_eq_ok hdims]
  exact hy

omit [Scalar α] in
/-- Arguments one by one are arguments in a row. -/
theorem mapM_batches {f : String → Outcome (Signal α)} {b : Nat}
    {fed : List (Compilation.Origin × TensorShape)}
    (h : ∀ x ∈ fed, ∃ sizes y, x.2.Settled sizes ∧ f x.1.key = .ok y ∧ y.dims = b :: sizes) :
    ∃ ys sizes, (fed.map (·.1.key)).mapM f = .ok ys ∧
      Forall₂ TensorShape.Settled (fed.map (·.2)) sizes ∧ Batches b ys sizes := by
  induction fed with
  | nil => exact ⟨[], [], rfl, .nil, .nil⟩
  | cons x fed ih =>
      obtain ⟨hx, hrest⟩ := List.forall_mem_cons.mp h
      obtain ⟨s, y, hs, hy, hdims⟩ := hx
      obtain ⟨ys, sizes, hys, hsettled, hbatches⟩ := ih hrest
      refine ⟨y :: ys, s :: sizes, ?_, .cons hs hsettled, .cons hdims hbatches⟩
      rw [List.map_cons, List.mapM_cons, hy, ok_bind, hys]
      rfl

section Compiled

variable {g : Graph} {m : Model α} (hc : Compilation.Compiled Stock.catalog g m)
  (hids : g.PlainIds) {earlier later : List (Layer α)} {L : Layer α}
  (hsplit : m.layers = earlier ++ L :: later) {b : Nat} (hb : 0 < b) {visits : List (Visit α)}
  (hreached : Reached b visits earlier) (hshapes : m.SettledOutside)
  {xs : List (String × Signal α)} (hxs : Supplied m b xs)

include hc hids hsplit hb hreached hshapes hxs

/-- The arguments of a layer are batches of the shapes that it was compiled for. -/
theorem argumentsOf_eq_ok {n : Node} {k : Kernel} {d : BlockDefinition}
    {fed : List (Compilation.Origin × TensorShape)}
    (hmade : Compilation.Made (Compilation.planOf Stock.catalog g m) earlier L n k d fed) :
    ∃ signals sizes, argumentsOf m (.named xs) visits L = .ok signals ∧
      Forall₂ TensorShape.Settled L.inputShapes sizes ∧ Batches b signals sizes := by
  have hL : L ∈ m.layers := hsplit ▸ List.mem_append_right _ List.mem_cons_self
  have hnodup := hreached.nodup hsplit hc.nodup
  rw [argumentsOf, hmade.feeds, hmade.shapes]
  refine mapM_batches ?_
  intro x hx
  rcases hc.expected hids hsplit hmade hx with ⟨K, hK, rfl⟩ | ⟨hkey, hexpected⟩
  · rw [← hreached.layers] at hK
    obtain ⟨v, hv, rfl⟩ := List.mem_map.mp hK
    obtain ⟨sizes, hsettled, hdims⟩ := hreached.declared v hv
    refine ⟨sizes, v.output, hsettled, ?_, hdims⟩
    simp only [Compilation.Origin.key, outputOf?_eq_some hnodup hv]
  · have hfeeds : x.1.key ∈ L.feeds := by
      rw [hmade.feeds]
      exact List.mem_map_of_mem (f := fun x : Compilation.Origin × TensorShape => x.1.key) hx
    have hread : m.ReadsOutside x.1.key := ⟨⟨L, hL, hfeeds⟩, hkey⟩
    obtain ⟨sizes, hsettled⟩ := hshapes _ hread _ hexpected
    obtain ⟨e, he, hdims⟩ := hxs _ hread _ _ hexpected hsettled
    obtain ⟨y, hy, hydims⟩ := feed_eq_ok hexpected hsettled hb he hdims
    refine ⟨sizes, y, hsettled, ?_, hydims⟩
    have hunvisited : x.1.key ∉ visits.map (·.layer.id) := by
      intro hmem
      rw [hreached.ids] at hmem
      refine hkey ?_
      rw [hsplit, List.map_append]
      exact List.mem_append_left _ hmem
    rw [outputOf?_eq_none hunvisited]
    exact hy

/-- A visit to the next layer. -/
theorem visit_run (hregular : L.Regular) (mode : PassMode) (gen : Generator) :
    (L.Allows mode → ∃ v gen', (visit m (.named xs) mode visits L).run gen = (.ok v, gen') ∧
      v.layer = L ∧ ∃ sizes, L.outputShape.Settled sizes ∧ v.output.dims = b :: sizes) ∧
    (¬L.Allows mode → ∃ fault gen',
      (visit m (.named xs) mode visits L).run gen = (.error fault, gen')) := by
  obtain ⟨n, k, d, fed, hmade⟩ := hc.made earlier L later hsplit
  obtain ⟨signals, sizes, hargs, hsettled, hbatches⟩ :=
    argumentsOf_eq_ok hc hids hsplit hb hreached hshapes hxs hmade
  have hkind : k.kind = L.kind := by
    rw [hmade.kind, Compilation.kind_of_ofKind? hmade.kernel]
  have hbuilt := hmade.built rfl hsettled
  have hsums : k = .addition → ∀ s ∈ sizes, ∀ t ∈ sizes, s.length = t.length := by
    rintro rfl
    exact hregular.axes hsettled hkind.symm
  have hsteps : k = .attention → ∀ q k v, Attention.streams sizes = .ok [q, k, v] →
      volume k.dropLast = volume v.dropLast := by
    rintro rfl
    exact hregular.steps hsettled hbuilt.nonempty hkind.symm
  obtain ⟨out, hout, hkeeps⟩ := hbuilt.keeps hsums hsteps
  have hkernel : Kernel.ofKind? L.kind = some k := hmade.kind ▸ hmade.kernel
  rw [← Kernel.allows_iff hkind]
  simp only [visit, hkernel]
  rw [run_lift_bind_ok hargs, run_get_bind]
  constructor
  · intro hallows
    obtain ⟨y, gen', hy, hdims⟩ := hkeeps.gives b signals mode gen hb hbatches hallows
    refine ⟨⟨L, signals, y, gen⟩, gen', ?_, rfl, out, hout, hdims⟩
    rw [run_bind_ok hy]
    rfl
  · intro hnot
    obtain ⟨fault, gen', hfault⟩ := hkeeps.fails b signals mode gen hb hbatches hnot
    exact ⟨fault, gen', run_bind_error hfault⟩

end Compiled

/-! ## All layers -/

omit [Scalar α] in
theorem Reached.append {b : Nat} {visits : List (Visit α)} {layers : List (Layer α)}
    (h : Reached b visits layers) {v : Visit α} {sizes : List Nat}
    (hv : v.layer.outputShape.Settled sizes) (hdims : v.output.dims = b :: sizes) :
    Reached b (visits ++ [v]) (layers ++ [v.layer]) := by
  refine ⟨by rw [List.map_append, h.layers]; rfl, ?_⟩
  rw [List.forall_mem_append, List.forall_mem_singleton]
  exact ⟨h.declared, sizes, hv, hdims⟩

/-- A pass comes to its end if the mode is allowed for all layers, and to a fault if not. -/
theorem visitAll_run {g : Graph} {m : Model α} (hc : Compilation.Compiled Stock.catalog g m)
    (hids : g.PlainIds) {b : Nat} (hb : 0 < b) (hshapes : m.SettledOutside)
    {xs : List (String × Signal α)} (hxs : Supplied m b xs) (hregular : ∀ L ∈ m.layers, L.Regular)
    (mode : PassMode) {earlier rest : List (Layer α)} (hsplit : m.layers = earlier ++ rest)
    {visits : List (Visit α)} (hreached : Reached b visits earlier) (gen : Generator) :
    ((∀ L ∈ rest, L.Allows mode) → ∃ visits' gen',
        visitAll m (.named xs) mode rest visits gen = (visits', none, gen') ∧
          Reached b visits' m.layers) ∧
      ((∃ L ∈ rest, ¬L.Allows mode) → ∃ visits' fault gen',
        visitAll m (.named xs) mode rest visits gen = (visits', some fault, gen')) := by
  induction rest generalizing earlier visits gen with
  | nil =>
      rw [List.append_nil] at hsplit
      exact ⟨fun _ => ⟨visits, gen, rfl, hsplit ▸ hreached⟩, by simp⟩
  | cons L rest ih =>
      have hL : L ∈ m.layers := hsplit ▸ List.mem_append_right _ List.mem_cons_self
      obtain ⟨hgives, hfails⟩ :=
        visit_run hc hids hsplit hb hreached hshapes hxs (hregular L hL) mode gen
      rw [List.forall_mem_cons, List.exists_mem_cons_iff]
      by_cases hallows : L.Allows mode
      · obtain ⟨v, gen', hv, rfl, sizes, hsettled, hdims⟩ := hgives hallows
        have hrest := ih (by rw [hsplit, List.append_cons]) (hreached.append hsettled hdims) gen'
        simp only [visitAll, hv]
        exact ⟨fun h => hrest.1 h.2, fun h => hrest.2 (h.resolve_left fun hnot => hnot hallows)⟩
      · obtain ⟨fault, gen', hfault⟩ := hfails hallows
        simp only [visitAll, hfault]
        exact ⟨fun h => absurd h.1 hallows, fun _ => ⟨visits, fault, gen', rfl⟩⟩

end Pass

/-! ## The whole pass -/

omit [Scalar α] in
/-- The result of a pass that came to its end is that of the last layer. -/
theorem Pass.output_eq_ok {p : Pass α} {m : Model α} (hlayers : p.visits.map (·.layer) = m.layers)
    (hfault : p.fault? = none) (hnodup : (m.layers.map (·.id)).Nodup) (hne : m.layers ≠ []) :
    ∃ y, p.output m = .ok y := by
  obtain ⟨last, hlast⟩ := Option.isSome_iff_exists.mp (List.getLast?_isSome.mpr hne)
  have hmem := List.mem_of_getLast? hlast
  rw [← hlayers] at hmem
  obtain ⟨v, hv, rfl⟩ := List.mem_map.mp hmem
  have hids : (p.visits.map (·.layer.id)).Nodup := by
    rw [← hlayers, List.map_map] at hnodup
    exact hnodup
  refine ⟨p.seen v.output, ?_⟩
  simp only [Pass.output, hfault, Model.outputLayer, hlast, orMishap, ok_bind,
    outputOf?_eq_some hids hv]

omit [Scalar α] in
theorem Pass.Reached.output {b : Nat} {p : Pass α} {m : Model α} (h : Reached b p.visits m.layers)
    (hfault : p.fault? = none) (hnodup : (m.layers.map (·.id)).Nodup) (hne : m.layers ≠ []) :
    ∃ y, p.output m = .ok y :=
  output_eq_ok h.layers hfault hnodup hne

/-- A model comes to the end of a pass if the mode is allowed for all its layers, and to a fault if
not. -/
theorem Model.run_reached {g : Graph} {m : Model α}
    (hc : Compilation.Compiled Stock.catalog g m) (hids : g.PlainIds)
    (hshapes : m.SettledOutside) (hregular : ∀ L ∈ m.layers, L.Regular) {b : Nat} (hb : 0 < b)
    {xs : List (String × Signal α)} (hxs : Pass.Supplied m b xs) (mode : PassMode)
    (gen : Generator) :
    ((∀ L ∈ m.layers, L.Allows mode) → (m.run (.named xs) mode gen).fault? = none ∧
        Pass.Reached b (m.run (.named xs) mode gen).visits m.layers) ∧
      ((∃ L ∈ m.layers, ¬L.Allows mode) → (m.run (.named xs) mode gen).fault? ≠ none) := by
  have hstart : Pass.Reached b ([] : List (Pass.Visit α)) [] := ⟨rfl, by simp⟩
  obtain ⟨hends, hstops⟩ :=
    Pass.visitAll_run hc hids hb hshapes hxs hregular mode (List.nil_append _).symm hstart gen
  constructor
  · intro hallows
    obtain ⟨visits, gen', hrun, hreached⟩ := hends hallows
    simp only [Model.run, hrun]
    exact ⟨trivial, hreached⟩
  · intro hnot
    obtain ⟨visits, fault, gen', hrun⟩ := hstops hnot
    simp only [Model.run, hrun]
    exact Option.some_ne_none fault

/-! ## Doubles -/

/-- A compiled model on batches in the shapes it expects: a pass comes to its end just when no
attention is trained with a rate that is no number, and then every layer gives a batch of the shape
that it declared. -/
theorem Model.run_declares {seed : Value} {g : Graph} {input : Option InputSpec} {m : Model Float}
    (hids : g.PlainIds) (h : (compile Stock.catalog seed g input).1 = .ok m)
    (hshapes : m.SettledOutside) (hregular : ∀ L ∈ m.layers, L.Regular) {b : Nat} (hb : 0 < b)
    {xs : List (String × Signal Float)} (hxs : Pass.Supplied m b xs) (mode : PassMode)
    (gen : Generator) :
    ((m.run (.named xs) mode gen).fault? = none ↔
        ¬(mode.training = true ∧ ∃ L ∈ m.layers, L.hasNanRate = true)) ∧
      ((m.run (.named xs) mode gen).fault? = none →
        Pass.Reached b (m.run (.named xs) mode gen).visits m.layers ∧
          ∃ y, (m.run (.named xs) mode gen).output m = .ok y) := by
  have hc := Compilation.compile_compiled h
  obtain ⟨hends, hstops⟩ := Model.run_reached hc hids hshapes hregular hb hxs mode gen
  have hallows : (∀ L ∈ m.layers, L.Allows mode) ↔
      ¬(mode.training = true ∧ ∃ L ∈ m.layers, L.hasNanRate = true) := by
    constructor
    · rintro hall ⟨htraining, L, hL, hnan⟩
      exact (hc.allows_iff hL mode).mp (hall L hL) ⟨htraining, hnan⟩
    · intro hnone L hL
      rw [hc.allows_iff hL mode]
      exact fun hboth => hnone ⟨hboth.1, L, hL, hboth.2⟩
  have hiff : (m.run (.named xs) mode gen).fault? = none ↔ ∀ L ∈ m.layers, L.Allows mode := by
    refine ⟨?_, fun h => (hends h).1⟩
    intro hnone
    by_contra hnot
    exact hstops (by simpa using hnot) hnone
  refine ⟨hiff.trans hallows, ?_⟩
  intro hnone
  have hreached := (hends (hiff.mp hnone)).2
  exact ⟨hreached, hreached.output hnone hc.nodup hc.nonempty⟩

/-! ### Attention beside a source of labels -/

/-- Attention with a rate on the input of the model, beside a layer that is fed from labels. -/
def attentive (rate : Float) : Graph :=
  let node (id blockType : String) (params : Entries) : Node :=
    ⟨id, blockType, params, .null, false, .null, []⟩
  { nodes := [node "attn" "MultiHeadAttention"
        [(.text "dim", .int 4), (.text "heads", .int 2), (.text "dropout", .real rate)],
      node "data" "DataLoader" [], node "flat" "Flatten" []]
    connections := [⟨.null, "data", .text "labels", "flat", .text "input", .null, .null, []⟩] }

/-- Sequences of three steps with four features. -/
def attentiveInput : TensorShape := TensorShape.batched [.size 3, .size 4] .float32

/-- Two sequences and two labels. -/
def attentiveSamples : List (String × Signal Float) :=
  [(modelInput, .real (Tensor.filled [2, 3, 4] 0)),
    ("data.labels", .whole (Tensor.filled [2, 1] 0))]

theorem attentive_plainIds (rate : Float) : (attentive rate).PlainIds := by
  have hids : (attentive rate).nodes.map (·.id) = ["attn", "data", "flat"] := rfl
  have hall : ∀ id ∈ (attentive rate).nodes.map (·.id), '.' ∉ id.toList ∧ id ≠ modelInput := by
    rw [hids]
    decide
  refine ⟨hids ▸ by decide, ?_, ?_⟩
  · exact fun n hn => (hall n.id (List.mem_map_of_mem hn)).1
  · exact fun n hn => (hall n.id (List.mem_map_of_mem hn)).2

/-- What matters of a model to a pass. -/
structure Outline where
  ends : List (List String × List TensorShape)
  input : TensorShape
  external : List (String × TensorShape)
  nan : Bool
  deriving DecidableEq

def Model.outline (m : Model Float) : Outline :=
  ⟨m.layers.map fun l => (l.feeds, l.inputShapes), m.inputShape, m.externalInputs,
    m.layers.any Layer.hasNanRate⟩

/-- The outline of a model of the graph, the rate being a number or not. -/
def attentiveOutline (nan : Bool) : Outline :=
  ⟨[([modelInput], [attentiveInput]), (["data.labels"], [DatasetSpec.labelShape])], attentiveInput,
    [("data.labels", DatasetSpec.labelShape)], nan⟩

/-- A model of the graph meets all that a pass on the samples needs. -/
theorem attentive_ready {m : Model Float} {nan : Bool} (h : m.outline = attentiveOutline nan) :
    m.SettledOutside ∧ (∀ L ∈ m.layers, L.Regular) ∧ Pass.Supplied m 2 attentiveSamples := by
  simp only [Model.outline, attentiveOutline, Outline.mk.injEq] at h
  obtain ⟨hlayers, hinput, hexternal, -⟩ := h
  have hlayer : ∀ L ∈ m.layers, (L.feeds = [modelInput] ∧ L.inputShapes = [attentiveInput]) ∨
      (L.feeds = ["data.labels"] ∧ L.inputShapes = [DatasetSpec.labelShape]) := by
    intro L hL
    have hmem := List.mem_map_of_mem (f := fun l : Layer Float => (l.feeds, l.inputShapes)) hL
    rw [hlayers] at hmem
    simpa using hmem
  have hsteps : attentiveInput.Settled [3, 4] := ⟨rfl, by decide, by decide⟩
  have hlabels : DatasetSpec.labelShape.Settled [1] := ⟨rfl, by decide, by decide⟩
  have hread : ∀ key, m.ReadsOutside key →
      (key = modelInput ∧ Pass.expected? m key = some attentiveInput) ∨
        (key = "data.labels" ∧ Pass.expected? m key = some DatasetSpec.labelShape) := by
    rintro key ⟨⟨L, hL, hkey⟩, -⟩
    rcases hlayer L hL with ⟨hfeeds, -⟩ | ⟨hfeeds, -⟩
    · obtain rfl := List.mem_singleton.mp (hfeeds ▸ hkey)
      exact .inl ⟨rfl, by rw [Pass.expected?, if_pos rfl, hinput]⟩
    · obtain rfl := List.mem_singleton.mp (hfeeds ▸ hkey)
      refine .inr ⟨rfl, ?_⟩
      rw [Pass.expected?, if_neg (by decide), hexternal]
      rfl
  refine ⟨?_, ?_, ?_⟩
  · intro key hkey s hs
    rcases hread key hkey with ⟨-, hexpected⟩ | ⟨-, hexpected⟩
    · exact ⟨[3, 4], Option.some.inj (hexpected.symm.trans hs) ▸ hsteps⟩
    · exact ⟨[1], Option.some.inj (hexpected.symm.trans hs) ▸ hlabels⟩
  · intro L hL
    exact (hlayer L hL).elim (fun h => .of_single h.2) fun h => .of_single h.2
  · intro key hkey s sizes hs hsettled
    rcases hread key hkey with ⟨rfl, hexpected⟩ | ⟨rfl, hexpected⟩
    · obtain rfl := Option.some.inj (hexpected.symm.trans hs)
      obtain rfl := hsettled.unique hsteps
      exact ⟨_, rfl, rfl⟩
    · obtain rfl := Option.some.inj (hexpected.symm.trans hs)
      obtain rfl := hsettled.unique hlabels
      exact ⟨_, rfl, rfl⟩

theorem run_declares_attentive :
    (attentive 0.5).PlainIds ∧ 0 < 2 ∧ ∃ m : Model Float,
      (compile Stock.catalog (.int 0) (attentive 0.5) (some (.shape attentiveInput))).1 = .ok m ∧
      m.SettledOutside ∧ (∀ L ∈ m.layers, L.Regular) ∧ Pass.Supplied m 2 attentiveSamples ∧
      ∀ mode gen, (m.run (.named attentiveSamples) mode gen).fault? = none ∧
        Pass.Reached 2 (m.run (.named attentiveSamples) mode gen).visits m.layers ∧
          ∃ y, (m.run (.named attentiveSamples) mode gen).output m = .ok y := by
  have hrun : ((compile Stock.catalog (.int 0) (attentive 0.5)
      (some (.shape attentiveInput))).1.toOption.map Model.outline) =
        some (attentiveOutline false) := by
    decide +kernel
  obtain ⟨m, hm, houtline⟩ := Option.map_eq_some_iff.mp hrun
  have hok := toOption_eq_some.mp hm
  obtain ⟨hshapes, hregular, hxs⟩ := attentive_ready houtline
  have hany : m.layers.any Layer.hasNanRate = false := congrArg Outline.nan houtline
  have hrates : ¬∃ L ∈ m.layers, L.hasNanRate = true := by
    rw [← List.any_eq_true, hany]
    exact Bool.false_ne_true
  refine ⟨attentive_plainIds 0.5, by decide, m, hok, hshapes, hregular, hxs, ?_⟩
  intro mode gen
  obtain ⟨hiff, hdeclares⟩ := Model.run_declares (attentive_plainIds 0.5) hok hshapes hregular
    (by decide) hxs mode gen
  have hnone := hiff.mpr fun h => hrates h.2
  exact ⟨hnone, hdeclares hnone⟩

/-- Bounds on a rate let through what is no number, and then training ends in a fault. -/
theorem run_faults_attentive :
    (attentive (0.0 / 0.0)).PlainIds ∧ 0 < 2 ∧ ∃ m : Model Float,
      (compile Stock.catalog (.int 0) (attentive (0.0 / 0.0))
        (some (.shape attentiveInput))).1 = .ok m ∧
      m.SettledOutside ∧ (∀ L ∈ m.layers, L.Regular) ∧ Pass.Supplied m 2 attentiveSamples ∧
      ∀ gen, (m.run (.named attentiveSamples) ⟨true, true⟩ gen).fault? ≠ none := by
  have hrun : ((compile Stock.catalog (.int 0) (attentive (0.0 / 0.0))
      (some (.shape attentiveInput))).1.toOption.map Model.outline) =
        some (attentiveOutline true) := by
    decide +kernel
  obtain ⟨m, hm, houtline⟩ := Option.map_eq_some_iff.mp hrun
  have hok := toOption_eq_some.mp hm
  obtain ⟨hshapes, hregular, hxs⟩ := attentive_ready houtline
  refine ⟨attentive_plainIds _, by decide, m, hok, hshapes, hregular, hxs, ?_⟩
  intro gen
  have hc := Compilation.compile_compiled hok
  have hany : m.layers.any Layer.hasNanRate = true := congrArg Outline.nan houtline
  obtain ⟨L, hL, hnan⟩ := List.any_eq_true.mp hany
  have hnot : ¬L.Allows ⟨true, true⟩ := by
    rw [hc.allows_iff hL]
    exact fun h => h ⟨rfl, hnan⟩
  exact (Model.run_reached hc (attentive_plainIds _) hshapes hregular (by decide) hxs _ gen).2
    ⟨L, hL, hnot⟩

end BlockNet
