import BlockNet.Proofs.Layer.Forward
import BlockNet.Proofs.Model.Pass
import BlockNet.Proofs.Sample.Attention

/-! # Layers and passes look at one sample at a time

All kernels but one give for a batch, outside of training, what they give for each of its samples.
The exception takes means over the batch. So a model without normalized batches gives for a batch, in
every layer, what it gives for each of the samples alone. -/

namespace BlockNet

open List

/-! ## Layers -/

section Layers

variable {α : Type} [Scalar α] {b i : Nat} (hi : i < b) {layer : Layer α}
  {sizes : List (List Nat)} {xs ys : List (Signal α)}

include hi

namespace Kernel

theorem Built.quiet_alone {k : Kernel} (h : k.Built layer sizes) (hk : k ≠ .batchNorm)
    (hquiet : k.isQuiet = true)
    (haxes : k = .addition → ∀ s ∈ sizes, ∀ t ∈ sizes, s.length = t.length)
    (hsamples : Samples b i sizes xs ys) :
    Both (fun t u => ∃ s, t.Alone b i s u) (k.quietForward layer xs) (k.quietForward layer ys) := by
  obtain ⟨shape, shapes, s, rest, hlist, rfl, hs⟩ := h.first
  obtain ⟨g, g', hbuild⟩ := h.weights
  rw [hlist] at hbuild
  cases hsamples with
  | cons hxy hrest =>
      have hsamples := Samples.cons hxy hrest
      cases k with
      | batchNorm => exact absurd rfl hk
      | flatten => cases hquiet
      | dropout => cases hquiet
      | attention => cases hquiet
      | dense => exact Dense.forward_alone hi hxy hs.nonempty layer
      | convolution => exact Convolution.forward_alone hi hxy layer
      | pooling => exact Pooling.forward_alone hi hxy layer
      | activation => exact Activation.applyNamed_alone hi hxy.toReal hs.nonempty layer.params
      | layerNorm =>
          obtain ⟨gamma, beta, hgamma, hbeta, hgdims, hbdims⟩ :=
            Normalization.weights_eq_ok hs (run_lift_eq_ok.mp hbuild).1
          exact Normalization.forwardRows_alone hi hxy hs.nonempty hgamma hgdims hbeta hbdims
      | addition =>
          refine Addition.forward_alone hi hsamples (fun t ht => ?_) (haxes rfl)
          obtain ⟨_, -, hsettled⟩ := exists_settled h.shapes ht
          exact hsettled.nonempty
      | concatenation => exact Concatenation.forward_alone hi hsamples h.shapes h.output
      | recurrent => exact Recurrent.forward_alone hi hxy layer

/-- Outside of training a layer looks at one sample at a time. -/
theorem Built.forward_alone {k : Kernel} (h : k.Built layer sizes) (hk : k ≠ .batchNorm)
    (hzero : Scalar.same (0 : α) 0 = true)
    (haxes : k = .addition → ∀ s ∈ sizes, ∀ t ∈ sizes, s.length = t.length)
    (hsamples : Samples b i sizes xs ys) {mode : PassMode} (hmode : mode.training = false) :
    Agree (fun y y' => ∃ s, Signal.Alone b i s y y') (k.forward layer xs mode)
      (k.forward layer ys mode) := by
  by_cases hquiet : k.isQuiet = true
  · rw [forward_of_isQuiet hquiet, forward_of_isQuiet hquiet]
    refine (Agree.lift (h.quiet_alone hi hk hquiet haxes hsamples)).bind ?_
    rintro t u ⟨s, htu⟩
    exact .pure ⟨s, .real htu⟩
  · obtain ⟨g, g', hbuild⟩ := h.weights
    cases k with
    | flatten =>
        cases hsamples with
        | nil => exact absurd rfl h.nonempty
        | cons hxy _ => exact .lift ((Signal.flattened_alone hi hxy).mono fun _ _ h => ⟨_, h⟩)
    | dropout =>
        cases hsamples with
        | nil => exact absurd rfl h.nonempty
        | cons hxy _ =>
            rw [forward, forward, hmode]
            exact (Dropout.forward_alone hxy layer).mono fun _ _ h => ⟨_, h⟩
    | attention =>
        refine (Attention.forward_alone hi hzero h.fit h.shapes h.nonempty hbuild hsamples
          hmode).bind ?_
        rintro t u ⟨s, htu⟩
        exact .pure ⟨s, .real htu⟩
    | _ => exact absurd rfl hquiet

end Kernel

end Layers

/-! ## Passes -/

variable {α : Type}

theorem eraseDups_eq_self {β : Type} [BEq β] [LawfulBEq β] {xs : List β} (h : xs.Nodup) :
    xs.eraseDups = xs := by
  induction xs with
  | nil => rfl
  | cons x xs ih =>
      obtain ⟨hx, hxs⟩ := List.nodup_cons.mp h
      have hkept : xs.filter (fun y => !y == x) = xs := by
        rw [List.filter_eq_self]
        intro y hy
        have hne : y ≠ x := fun hyx => hx (hyx ▸ hy)
        simp [hne]
      rw [List.eraseDups_cons, hkept, ih hxs]

namespace Pass

/-- Every input cut down to the sample at a place. -/
def sliced (xs : List (String × Signal α)) (i : Nat) : List (String × Signal α) :=
  xs.map fun e => (e.1, e.2.slice i)

theorem find?_sliced (xs : List (String × Signal α)) (i : Nat) (key : String) :
    (sliced xs i).find? (·.1 == key) =
      (xs.find? (·.1 == key)).map fun e => (e.1, e.2.slice i) := by
  rw [sliced, List.find?_map]
  rfl

variable {m : Model α} {b i : Nat} {xs : List (String × Signal α)} {vs ws : List (Visit α)}

theorem Supplied.sliced (h : Supplied m b xs) (hi : i < b) : Supplied m 1 (sliced xs i) := by
  intro key hkey s sizes hs hsettled
  obtain ⟨e, he, hdims⟩ := h key hkey s sizes hs hsettled
  exact ⟨_, by rw [find?_sliced, he]; rfl, (Signal.slice_alone hdims hi).dims.2⟩

theorem feed_alone (hi : i < b) {key : String} {s : TensorShape} {sizes : List Nat}
    (hs : expected? m key = some s) (hsettled : s.Settled sizes) {e : String × Signal α}
    (he : xs.find? (·.1 == key) = some e) (hdims : e.2.dims = b :: sizes) :
    Both (Signal.Alone b i sizes) (feed m (.named xs) key)
      (feed m (.named (Pass.sliced xs i)) key) := by
  have halone := Signal.slice_alone hdims hi
  have hgiven : given m (.named xs) key = .ok e.2 := by
    simp only [given, he]
  have hlone : given m (.named (Pass.sliced xs i)) key = .ok (e.2.slice i) := by
    simp only [given, find?_sliced, he, Option.map_some]
  simp only [feed, hgiven, hlone, ok_bind, hs, conform, hsettled.sampleSizes, halone.batch.1,
    halone.batch.2]
  exact halone.reshape sizes

/-! ## Visits beside each other -/

/-- Two visits to a layer, one of which gave the sample at a place of what the other one gave. -/
def Visit.Beside (b i : Nat) (v w : Visit α) : Prop :=
  v.layer = w.layer ∧ ∃ s, Signal.Alone b i s v.output w.output

theorem outputOf?_beside (h : Forall₂ (Visit.Beside b i) vs ws) (key : String) :
    (outputOf? vs key = none ∧ outputOf? ws key = none) ∨
      ∃ x y s, outputOf? vs key = some x ∧ outputOf? ws key = some y ∧ Signal.Alone b i s x y := by
  have hreverse : Forall₂ (Visit.Beside b i) vs.reverse ws.reverse := rel_reverse h
  rw [outputOf?, outputOf?]
  generalize vs.reverse = vs, ws.reverse = ws at hreverse ⊢
  induction hreverse with
  | nil => exact .inl ⟨rfl, rfl⟩
  | @cons v w _ _ hvw _ ih =>
      obtain ⟨hlayer, s, halone⟩ := hvw
      rw [List.find?_cons, List.find?_cons, ← hlayer]
      split
      · exact .inr ⟨_, _, s, rfl, rfl, halone⟩
      · exact ih

section Compiled

variable [Scalar α] {g : Graph} (hc : Compilation.Compiled Stock.catalog g m) (hids : g.PlainIds)
  {earlier later : List (Layer α)} {L : Layer α} (hsplit : m.layers = earlier ++ L :: later)
  (hi : i < b) (hvs : Reached b vs earlier) (hws : Reached 1 ws earlier)
  (hbeside : Forall₂ (Visit.Beside b i) vs ws) (hshapes : m.SettledOutside)
  (hxs : Supplied m b xs)

include hc hids hsplit hi hvs hws hbeside hshapes hxs

omit hws in
theorem argumentsOf_alone {n : Node} {k : Kernel} {d : BlockDefinition}
    {fed : List (Compilation.Origin × TensorShape)}
    (hmade : Compilation.Made (Compilation.planOf Stock.catalog g m) earlier L n k d fed) :
    Both (Forall₂ fun x y => ∃ s, Signal.Alone b i s x y) (argumentsOf m (.named xs) vs L)
      (argumentsOf m (.named (Pass.sliced xs i)) ws L) := by
  have hL : L ∈ m.layers := hsplit ▸ List.mem_append_right _ List.mem_cons_self
  have hnodup := hvs.nodup hsplit hc.nodup
  refine Both.mapM fun key hkey => ?_
  rcases outputOf?_beside hbeside key with ⟨hv, hw⟩ | ⟨x, y, s, hv, hw, halone⟩
  · rw [hmade.feeds] at hkey
    obtain ⟨o, ho, rfl⟩ := List.mem_map.mp hkey
    rcases hc.expected hids hsplit hmade ho with ⟨K, hK, rfl⟩ | ⟨houtside, hexpected⟩
    · rw [← hvs.layers] at hK
      obtain ⟨v, hmem, rfl⟩ := List.mem_map.mp hK
      exact absurd ((outputOf?_eq_some hnodup hmem).symm.trans hv) (Option.some_ne_none _)
    · have hread : m.ReadsOutside o.1.key := ⟨⟨L, hL, hmade.feeds ▸ hkey⟩, houtside⟩
      obtain ⟨sizes, hsettled⟩ := hshapes _ hread _ hexpected
      obtain ⟨e, he, hdims⟩ := hxs _ hread _ _ hexpected hsettled
      simp only [hv, hw]
      exact (feed_alone hi hexpected hsettled he hdims).mono fun _ _ h => ⟨sizes, h⟩
  · simp only [hv, hw]
    exact .ok ⟨s, halone⟩

/-- The next visits are beside each other again. -/
theorem visit_alone (hzero : Scalar.same (0 : α) 0 = true) (hregular : L.Regular)
    (hkind : L.kind ≠ Kernel.batchNorm.kind) {mode : PassMode} (hmode : mode.training = false) :
    Agree (Visit.Beside b i) (visit m (.named xs) mode vs L)
      (visit m (.named (Pass.sliced xs i)) mode ws L) := by
  obtain ⟨n, k, d, fed, hmade⟩ := hc.made earlier L later hsplit
  obtain ⟨signals, sizes, hargs, hsettled, hbatches⟩ :=
    argumentsOf_eq_ok hc hids hsplit (Nat.zero_lt_of_lt hi) hvs hshapes hxs hmade
  obtain ⟨signals', _, hargs', -, -⟩ :=
    argumentsOf_eq_ok hc hids hsplit Nat.one_pos hws hshapes (hxs.sliced hi) hmade
  have hsamples : Samples b i sizes signals signals' :=
    .of_batches hbatches (argumentsOf_alone hc hids hsplit hi hvs hbeside hshapes hxs hmade
      signals signals' hargs hargs')
  have hname : k.kind = L.kind := by
    rw [hmade.kind, Compilation.kind_of_ofKind? hmade.kernel]
  have haxes : k = .addition → ∀ s ∈ sizes, ∀ t ∈ sizes, s.length = t.length := by
    rintro rfl
    exact hregular.axes hsettled hname.symm
  have hplain : k ≠ .batchNorm := by
    rintro rfl
    exact hkind hname.symm
  have hforward := (hmade.built rfl hsettled).forward_alone hi hplain hzero haxes hsamples hmode
  have hkernel : Kernel.ofKind? L.kind = some k := hmade.kind ▸ hmade.kernel
  simp only [visit, hkernel, hargs, hargs', lift_ok_bind]
  refine Agree.bind (R := fun _ _ => True) (fun _ _ => .ok trivial) fun start start' _ => ?_
  exact hforward.bind fun y y' h => .pure ⟨rfl, h⟩

end Compiled

/-! ## All layers -/

section Ends

variable [Scalar α] {g : Graph} (hc : Compilation.Compiled Stock.catalog g m) (hids : g.PlainIds)
  (hzero : Scalar.same (0 : α) 0 = true) (hi : i < b) (hshapes : m.SettledOutside)
  (hxs : Supplied m b xs) (hregular : ∀ L ∈ m.layers, L.Regular)
  (hkinds : ∀ L ∈ m.layers, L.kind ≠ Kernel.batchNorm.kind) {mode : PassMode}
  (hmode : mode.training = false)

include hc hids hzero hi hshapes hxs hregular hkinds hmode

/-- Two passes go on beside each other to their ends. -/
theorem visitAll_beside {earlier rest : List (Layer α)} (hsplit : m.layers = earlier ++ rest)
    (hvs : Reached b vs earlier) (hws : Reached 1 ws earlier)
    (hbeside : Forall₂ (Visit.Beside b i) vs ws) (gen gen' : Generator) :
    ∃ vs' ws' gen₁ gen₁', visitAll m (.named xs) mode rest vs gen = (vs', none, gen₁) ∧
      visitAll m (.named (Pass.sliced xs i)) mode rest ws gen' = (ws', none, gen₁') ∧
      Reached b vs' m.layers ∧ Reached 1 ws' m.layers ∧ Forall₂ (Visit.Beside b i) vs' ws' := by
  -- both passes have reached the same layers, and every step takes both one layer further
  induction rest generalizing earlier vs ws gen gen' with
  | nil =>
      rw [List.append_nil] at hsplit
      exact ⟨vs, ws, gen, gen', rfl, rfl, hsplit ▸ hvs, hsplit ▸ hws, hbeside⟩
  | cons L rest ih =>
      have hL : L ∈ m.layers := hsplit ▸ List.mem_append_right _ List.mem_cons_self
      have hallows : L.Allows mode := by
        intro _ rate hrate
        rw [hmode] at hrate
        obtain rfl : 0 = rate := Except.ok.inj hrate
        exact .inl hzero
      obtain ⟨v, gen₁, hv, hlayer, sizes, hsettled, hdims⟩ := (visit_run hc hids hsplit
        (Nat.zero_lt_of_lt hi) hvs hshapes hxs (hregular L hL) mode gen).1 hallows
      obtain ⟨w, gen₁', hw, hlayer', sizes', hsettled', hdims'⟩ := (visit_run hc hids hsplit
        Nat.one_pos hws hshapes (hxs.sliced hi) (hregular L hL) mode gen').1 hallows
      have hvw : v.Beside b i w :=
        visit_alone hc hids hsplit hi hvs hws hbeside hshapes hxs hzero (hregular L hL)
          (hkinds L hL) hmode gen gen' v w (congrArg Prod.fst hv) (congrArg Prod.fst hw)
      subst hlayer
      have hvs' := hvs.append hsettled hdims
      have hws' := hws.append (hlayer' ▸ hsettled') hdims'
      rw [hlayer'] at hws'
      simp only [visitAll, hv, hw]
      exact ih (by rw [hsplit, List.append_cons]) hvs' hws' (rel_append hbeside (.cons hvw .nil))
        gen₁ gen₁'

end Ends

/-! ## Outputs -/

theorem outputs_eq_ok {p : Pass α} (hfault : p.fault? = none) (hwhole : p.unbatched = false)
    (hnodup : (p.visits.map (·.layer.id)).Nodup) :
    p.outputs = .ok (p.visits.map fun v => (v.layer.id, v.output)) := by
  have hids : ids p.visits = p.visits.map (·.layer.id) := eraseDups_eq_self hnodup
  have hseen : ∀ x, p.seen x = x := fun x => by rw [seen, hwhole, if_neg Bool.false_ne_true]
  simp only [outputs, hfault, hids, hseen]
  rw [List.filterMap_map, ← List.filterMap_eq_map]
  congr 1
  refine List.filterMap_congr fun v hv => ?_
  rw [Function.comp_apply, outputOf?_eq_some hnodup hv]
  rfl

/-- What visits beside each other gave, under the ids of their layers. -/
theorem sliced_of_beside (hi : i < b) (h : Forall₂ (Visit.Beside b i) vs ws) :
    (ws.map fun w => (w.layer.id, w.output)) =
      sliced (vs.map fun v => (v.layer.id, v.output)) i := by
  induction h with
  | nil => rfl
  | cons hvw _ ih =>
      obtain ⟨hlayer, s, halone⟩ := hvw
      rw [sliced] at ih ⊢
      rw [List.map_cons, List.map_cons, List.map_cons, ih, hlayer, halone.eq_slice hi]

end Pass

/-- What a model gives outside of training for one sample of a batch is the part of the sample in
what it gives for the batch, in every layer, provided no layer normalizes over the batch. -/
theorem Model.run_sliced {seed : Value} {g : Graph} {input : Option InputSpec} {m : Model Float}
    (hids : g.PlainIds) (h : (compile Stock.catalog seed g input).1 = .ok m)
    (hshapes : m.SettledOutside) (hregular : ∀ L ∈ m.layers, L.Regular)
    (hkinds : ∀ L ∈ m.layers, L.kind ≠ Kernel.batchNorm.kind) {b : Nat}
    {xs : List (String × Signal Float)} (hxs : Pass.Supplied m b xs) {i : Nat} (hi : i < b)
    {mode : PassMode} (hmode : mode.training = false) (gen gen' : Generator) :
    ∃ outs, (m.run (.named xs) mode gen).outputs = .ok outs ∧
      outs.map (·.1) = m.layers.map (·.id) ∧ (∀ e ∈ outs, ∃ s, e.2.dims = b :: s) ∧
      (m.run (.named (Pass.sliced xs i)) mode gen').outputs = .ok (Pass.sliced outs i) := by
  have hc := Compilation.compile_compiled h
  have hstart : ∀ n, Pass.Reached n ([] : List (Pass.Visit Float)) [] := fun n => ⟨rfl, by simp⟩
  obtain ⟨vs, ws, gen₁, gen₁', hrun, hrun', hvs, hws, hbeside⟩ :=
    Pass.visitAll_beside hc hids (by decide) hi hshapes hxs hregular hkinds hmode
      (List.nil_append _).symm (hstart b) (hstart 1) .nil gen gen'
  have houts : (m.run (.named xs) mode gen).outputs =
      .ok (vs.map fun v => (v.layer.id, v.output)) := by
    rw [Model.run, hrun]
    exact Pass.outputs_eq_ok rfl rfl (hvs.ids ▸ hc.nodup)
  have hlone : (m.run (.named (Pass.sliced xs i)) mode gen').outputs =
      .ok (ws.map fun w => (w.layer.id, w.output)) := by
    rw [Model.run, hrun']
    exact Pass.outputs_eq_ok rfl rfl (hws.ids ▸ hc.nodup)
  refine ⟨_, houts, ?_, ?_, by rw [hlone, Pass.sliced_of_beside hi hbeside]⟩
  · rw [List.map_map]
    exact hvs.ids
  · intro e he
    obtain ⟨v, hv, rfl⟩ := List.mem_map.mp he
    obtain ⟨sizes, -, hdims⟩ := hvs.declared v hv
    exact ⟨sizes, hdims⟩

theorem run_sliced_attentive :
    (attentive 0.5).PlainIds ∧ 1 < 2 ∧ ∃ m : Model Float,
      (compile Stock.catalog (.int 0) (attentive 0.5) (some (.shape attentiveInput))).1 = .ok m ∧
      m.SettledOutside ∧ (∀ L ∈ m.layers, L.Regular) ∧
      (∀ L ∈ m.layers, L.kind ≠ Kernel.batchNorm.kind) ∧ Pass.Supplied m 2 attentiveSamples ∧
      ∀ streamed gen gen', ∃ outs,
        (m.run (.named attentiveSamples) ⟨false, streamed⟩ gen).outputs = .ok outs ∧
        outs.map (·.1) = ["attn", "flat"] ∧ (∀ e ∈ outs, ∃ s, e.2.dims = 2 :: s) ∧
        (m.run (.named (Pass.sliced attentiveSamples 1)) ⟨false, streamed⟩ gen').outputs =
          .ok (Pass.sliced outs 1) := by
  have hrun : ((compile Stock.catalog (.int 0) (attentive 0.5)
      (some (.shape attentiveInput))).1.toOption.map fun m : Model Float =>
        (m.outline, m.layers.map fun L => (L.id, L.kind))) =
          some (attentiveOutline false, [("attn", "MultiHeadAttention"), ("flat", "Flatten")]) := by
    decide +kernel
  obtain ⟨m, hm, hboth⟩ := Option.map_eq_some_iff.mp hrun
  obtain ⟨houtline, hlayers⟩ := Prod.mk.inj hboth
  have hok := toOption_eq_some.mp hm
  obtain ⟨hshapes, hregular, hxs⟩ := attentive_ready houtline
  have hids : m.layers.map (·.id) = ["attn", "flat"] := by
    simpa [Function.comp_def] using congrArg (List.map Prod.fst) hlayers
  have hall : m.layers.map (·.kind) = ["MultiHeadAttention", "Flatten"] := by
    simpa [Function.comp_def] using congrArg (List.map Prod.snd) hlayers
  have hplain : ∀ kind ∈ ["MultiHeadAttention", "Flatten"], kind ≠ Kernel.batchNorm.kind := by
    decide
  have hkinds : ∀ L ∈ m.layers, L.kind ≠ Kernel.batchNorm.kind :=
    fun L hL => hplain L.kind (hall ▸ List.mem_map_of_mem hL)
  refine ⟨attentive_plainIds 0.5, by decide, m, hok, hshapes, hregular, hkinds, hxs, ?_⟩
  intro streamed gen gen'
  rw [← hids]
  exact Model.run_sliced (attentive_plainIds 0.5) hok hshapes hregular hkinds hxs (by decide) rfl
    gen gen'

end BlockNet
