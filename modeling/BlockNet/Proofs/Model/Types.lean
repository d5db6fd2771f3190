import BlockNet.Proofs.Compilation.Listed
import BlockNet.Proofs.Layer.Types
import BlockNet.Proofs.Model.Pass
import BlockNet.Proofs.Model.Reach

/-! # Declared types and the types of results

Where every tensor given from outside has the element type declared for its key, the layers of a
pass give what they declare if and only if each layer agrees with what is declared before it: one
that declares the type that enters and makes real numbers of it needs real numbers to enter. -/

namespace BlockNet

open List

variable {α : Type} [Scalar α]

/-! ## Keys that are read from outside -/

/-- A layer reads the key, and no layer before it goes by it. -/
def Model.Awaits (m : Model α) (key : String) : Prop :=
  ∃ earlier L later, m.layers = earlier ++ L :: later ∧ key ∈ L.feeds ∧
    key ∉ earlier.map (·.id)

namespace Compilation

/-- Layers are fed from layers before them, from the input of the model, and under noted keys. -/
def Progress.Wired (p : Progress α) : Prop :=
  ∀ earlier L later, p.layers = earlier ++ L :: later → ∀ key ∈ L.feeds,
    key ∈ earlier.map (·.id) ∨ key = modelInput ∨ key ∈ p.external.map (·.1)

omit [Scalar α] in
theorem Progress.Wired.mono {p p' : Progress α} (h : p.Wired) (hlayers : p'.layers = p.layers)
    (hexternal : p.external.map (·.1) ⊆ p'.external.map (·.1)) : p'.Wired := by
  intro earlier L later hsplit key hkey
  exact (h earlier L later (hlayers ▸ hsplit) key hkey).imp_right
    (Or.imp_right fun hnoted => hexternal hnoted)

theorem place_wired {plan : Plan} {p p' : Progress α} {id : String} (hp : p.Wired)
    (h : place plan p id = .ok p') : p'.Wired := by
  rcases place_eq_ok h with ⟨-, _, _, _, rfl⟩ |
    ⟨n, k, d, p₁, feeds, params, _, -, -, -, hfeeds, -, hadd⟩
  · exact hp.mono rfl (List.Subset.refl _)
  obtain ⟨fed, rfl, hfed⟩ := feedsOf_fed hfeeds
  obtain ⟨hexternal, hlayers⟩ := addLayer_eq_ok hadd
  have hexternal : p'.external = p₁.external := hexternal
  have hkept : p.external.map (·.1) ⊆ p'.external.map (·.1) := by
    rw [hexternal, hfed.external]
    exact (keys_foldl_note fed p.external).1
  rcases hlayers with hlayers | ⟨L, hlayers, -, -, -, hLfeeds, -⟩
  · exact hp.mono (hlayers.trans hfed.layers) hkept
  · intro earlier K later hsplit key hkey
    have hall : p'.layers = p.layers ++ [L] := by
      rw [hlayers]
      exact congrArg (· ++ [L]) hfed.layers
    rw [hall] at hsplit
    rcases split_concat hsplit with ⟨rfl, rfl⟩ | ⟨rest, hbefore⟩
    · rw [hLfeeds, limited_map, List.map_map] at hkey
      obtain ⟨x, hx, rfl⟩ := List.mem_map.mp hkey
      have hknown := hfed.known (mem_of_mem_limited hx)
      rw [Progress.Known, hfed.layers] at hknown
      exact hknown.imp_right (Or.imp_right fun hnoted => hexternal ▸ hnoted)
    · exact (hp earlier K rest hbefore key hkey).imp_right
        (Or.imp_right fun hnoted => hkept hnoted)

/-- A compiled model expects something under every key that it reads from outside. -/
theorem compile_expects {catalog : Catalog} {seed : Value} {g : Graph} {input : Option InputSpec}
    {m : Model α} (h : (compile catalog seed g input).1 = .ok m) {key : String}
    (hkey : m.Awaits key) : ∃ s, Pass.expected? m key = some s := by
  obtain ⟨r, log, p, hp⟩ := compile_completed h
  have hstart : ∀ warnings skipped, (Progress.start r log warnings skipped : Progress α).Wired := by
    intro warnings skipped earlier L later hsplit
    simp [Progress.start] at hsplit
  have hwired := foldlM_induction (P := fun _ p => Progress.Wired p)
    (fun _ _ _ _ ha hb => place_wired ha hb) (hstart _ _) hp.turns
  obtain ⟨earlier, L, later, hsplit, hfeed, hnew⟩ := hkey
  rw [hp.layers] at hsplit
  by_cases hinput : key = modelInput
  · exact ⟨m.inputShape, by rw [Pass.expected?, if_pos hinput]⟩
  · have hnoted := ((hwired earlier L later hsplit key hfeed).resolve_left hnew).resolve_left hinput
    rw [← hp.external] at hnoted
    obtain ⟨entry, hentry, hsame⟩ := List.mem_map.mp hnoted
    have hsome : (m.externalInputs.find? (·.1 == key)).isSome = true := by
      rw [List.find?_isSome]
      exact ⟨entry, hentry, beq_iff_eq.mpr hsame⟩
    obtain ⟨found, hfound⟩ := Option.isSome_iff_exists.mp hsome
    exact ⟨found.2, by rw [Pass.expected?, if_neg hinput, hfound, Option.map_some]⟩

end Compilation

/-! ## Types that agree -/

/-- What is read under a key after some layers is declared to be real numbers: the last of the layers
that goes by the key declares it, or else the model. -/
def Model.DeclaresReal (m : Model α) (earlier : List (Layer α)) (key : String) : Prop :=
  match earlier.reverse.find? (·.id == key) with
  | some K => K.outputShape.dtype = .float32
  | none => ∃ s, Pass.expected? m key = some s ∧ s.dtype = .float32

/-- A layer agrees with the types declared before it: what it casts is declared to be real numbers,
and what it hands on is declared as the layer was told when it was compiled. -/
structure Model.Agrees (m : Model α) (mode : PassMode) (earlier : List (Layer α)) (L : Layer α) :
    Prop where
  casts : L.Casts mode → FirstReal L.inputShapes
  handsOn : L.HandsOn mode →
    ((∃ key, L.feeds.head? = some key ∧ m.DeclaresReal earlier key) ↔ FirstReal L.inputShapes)

namespace Pass

/-- Under every key that is read from outside stands a tensor that holds real numbers if and only if
those are expected. -/
def Typed (m : Model α) (xs : List (String × Signal α)) : Prop :=
  ∀ key, m.Awaits key → ∀ s, expected? m key = some s →
    ∃ e, xs.find? (·.1 == key) = some e ∧ (e.2.isReal = true ↔ s.dtype = .float32)

/-- A layer gave real numbers if and only if it declares them. -/
def Visit.Right (v : Visit α) : Prop := v.output.isReal = true ↔ v.layer.outputShape.dtype = .float32

/-! ## One layer -/

omit [Scalar α] in
theorem isReal_feed {m : Model α} {xs : List (String × Signal α)} {key : String}
    {e : String × Signal α} {x : Signal α} (he : xs.find? (·.1 == key) = some e)
    (h : feed m (.named xs) key = .ok x) : x.isReal = e.2.isReal := by
  have hgiven : given m (.named xs) key = .ok e.2 := by simp only [given, he]
  rw [feed, hgiven, ok_bind] at h
  cases hs : expected? m key with
  | none =>
      rw [hs] at h
      rw [← Except.ok.inj h]
  | some s =>
      rw [hs] at h
      simp only [conform] at h
      split at h
      · rw [← Except.ok.inj h]
      · obtain ⟨b, -, h⟩ := bind_eq_ok.mp h
        exact Signal.isReal_reshape h

section Turn

variable {m : Model α} {earlier later : List (Layer α)} {L : Layer α}
  (hsplit : m.layers = earlier ++ L :: later)
  (hexpects : ∀ key, m.Awaits key → ∃ s, expected? m key = some s)
  {xs : List (String × Signal α)} (hxs : Typed m xs) {visits : List (Visit α)}
  (hvisits : visits.map (·.layer) = earlier) (hright : ∀ v ∈ visits, v.Right)

include hsplit hexpects hxs hvisits hright

omit [Scalar α] in
/-- What a layer reads under a key is what is declared there, if all layers before gave what they
declare. -/
theorem isReal_argument {key : String} (hkey : key ∈ L.feeds) {x : Signal α}
    (h : (match outputOf? visits key with
      | some x => .ok x
      | none => feed m (.named xs) key) = Except.ok x) :
    x.isReal = true ↔ m.DeclaresReal earlier key := by
  have hlast : earlier.reverse.find? (·.id == key) =
      (visits.reverse.find? (·.layer.id == key)).map (·.layer) := by
    rw [← hvisits, ← List.map_reverse, List.find?_map]
    rfl
  rw [outputOf?] at h
  rw [Model.DeclaresReal, hlast]
  cases hfound : visits.reverse.find? (·.layer.id == key) with
  | some v =>
      rw [hfound] at h
      obtain rfl := Except.ok.inj h
      exact hright v (List.mem_reverse.mp (List.mem_of_find?_eq_some hfound))
  | none =>
      rw [hfound] at h
      have hnew : key ∉ earlier.map (·.id) := by
        intro hmem
        rw [← hvisits, List.map_map] at hmem
        obtain ⟨v, hv, hid⟩ := List.mem_map.mp hmem
        have hnone := List.find?_eq_none.mp hfound v (List.mem_reverse.mpr hv)
        exact hnone (beq_iff_eq.mpr hid)
      have hawaits : m.Awaits key := ⟨earlier, L, later, hsplit, hkey, hnew⟩
      obtain ⟨s, hs⟩ := hexpects key hawaits
      obtain ⟨e, he, htype⟩ := hxs key hawaits s hs
      rw [isReal_feed he h, htype]
      simp [hs]

/-- The next layer gives what it declares if and only if it agrees with the types declared before. -/
theorem visit_right_iff {k : Kernel} (hk : Kernel.ofKind? L.kind = some k)
    (hout : k.outputShape L.params L.inputShapes = .ok L.outputShape) {mode : PassMode}
    {v : Visit α} {g g' : Generator}
    (h : (visit m (.named xs) mode visits L).run g = (.ok v, g')) :
    v.Right ↔ m.Agrees mode earlier L := by
  simp only [visit, hk] at h
  obtain ⟨args, hargs, h⟩ := run_lift_bind_eq_ok.mp h
  rw [run_get_bind] at h
  obtain ⟨y, _, hy, h⟩ := run_bind_eq_ok.mp h
  obtain ⟨rfl, -⟩ := run_pure_eq_ok.mp h
  have hfirst : FirstGiven args ↔
      ∃ key, L.feeds.head? = some key ∧ m.DeclaresReal earlier key := by
    rw [argumentsOf] at hargs
    cases hfeeds : L.feeds with
    | nil =>
        rw [hfeeds] at hargs
        obtain rfl := Except.ok.inj hargs
        simp [FirstGiven]
    | cons key rest =>
        rw [hfeeds, List.mapM_cons] at hargs
        obtain ⟨x, hx, hargs⟩ := bind_eq_ok.mp hargs
        obtain ⟨others, -, hargs⟩ := bind_eq_ok.mp hargs
        obtain rfl := Except.ok.inj hargs
        have hkey : key ∈ L.feeds := hfeeds ▸ List.mem_cons_self
        simp [FirstGiven,
          isReal_argument hsplit hexpects hxs hvisits hright hkey hx]
  have hright := Layer.type_declared_iff hk hout hy
  rw [hfirst] at hright
  exact hright.trans ⟨fun h => ⟨h.1, h.2⟩, fun h => ⟨h.casts, h.handsOn⟩⟩

end Turn

/-! ## All layers -/

section Run

variable {m : Model α} (hexpects : ∀ key, m.Awaits key → ∃ s, expected? m key = some s)
  {xs : List (String × Signal α)} (hxs : Typed m xs)
  (hkernels : ∀ L ∈ m.layers, ∃ k, Kernel.ofKind? L.kind = some k ∧
    k.outputShape L.params L.inputShapes = .ok L.outputShape)

include hexpects hxs hkernels

/-- The layers of a pass that comes to its end all give what they declare if and only if those gone
through did and each of the others agrees with the types declared before it. -/
theorem visitAll_right_iff (mode : PassMode) {rest earlier : List (Layer α)}
    (hsplit : m.layers = earlier ++ rest) {visits visits' : List (Visit α)}
    (hvisits : visits.map (·.layer) = earlier) {g g' : Generator}
    (h : visitAll m (.named xs) mode rest visits g = (visits', none, g')) :
    visits'.map (·.layer) = m.layers ∧ ((∀ v ∈ visits', v.Right) ↔ (∀ v ∈ visits, v.Right) ∧
      ∀ front L back, rest = front ++ L :: back → m.Agrees mode (earlier ++ front) L) := by
  induction rest generalizing earlier visits g with
  | nil =>
      obtain ⟨rfl, -⟩ := Prod.mk.inj h
      refine ⟨by rw [hvisits, hsplit, List.append_nil], ?_⟩
      simp
  | cons L rest ih =>
      rw [visitAll] at h
      rcases hv : (visit m (.named xs) mode visits L).run g with ⟨fault | v, g₁⟩
      · rw [hv] at h
        cases h
      · rw [hv] at h
        have hlayer := visit_layer hv
        have hvisits' : (visits ++ [v]).map (·.layer) = earlier ++ [L] := by
          rw [List.map_append, hvisits, List.map_singleton, hlayer]
        obtain ⟨hlayers, hall⟩ := ih (by rw [hsplit, List.append_cons]) hvisits' h
        refine ⟨hlayers, ?_⟩
        obtain ⟨k, hk, hout⟩ := hkernels L (hsplit ▸ List.mem_append_right _ List.mem_cons_self)
        have hstep := fun hright : ∀ v ∈ visits, v.Right =>
          visit_right_iff hsplit hexpects hxs hvisits hright hk hout hv
        rw [hall, List.forall_mem_append, List.forall_mem_singleton, and_assoc]
        refine and_congr_right fun hright => ?_
        rw [hstep hright]
        constructor
        · rintro ⟨hfirst, hothers⟩ front K back hrest
          cases front with
          | nil =>
              obtain ⟨rfl, rfl⟩ := List.cons.inj hrest
              rwa [List.append_nil]
          | cons K' front =>
              obtain ⟨rfl, rfl⟩ := List.cons.inj hrest
              have hothers := hothers front K back rfl
              rwa [List.append_assoc] at hothers
        · intro hagrees
          refine ⟨?_, ?_⟩
          · have hfirst := hagrees [] L rest rfl
            rwa [List.append_nil] at hfirst
          · intro front K back hrest
            have hothers := hagrees (L :: front) K back (by rw [hrest, List.cons_append])
            rwa [List.append_cons] at hothers

end Run

end Pass

/-! ## Plain ids -/

namespace Compilation

/-- In a graph with plain ids, what a layer was told about the type that enters is what is declared
there. -/
theorem Compiled.declaresReal_iff {g : Graph} {m : Model α}
    (hc : Compiled Stock.catalog g m) (hids : g.PlainIds) {earlier later : List (Layer α)}
    {L : Layer α} (hsplit : m.layers = earlier ++ L :: later) :
    (∃ key, L.feeds.head? = some key ∧ m.DeclaresReal earlier key) ↔ FirstReal L.inputShapes := by
  obtain ⟨n, k, d, fed, hmade⟩ := hc.made earlier L later hsplit
  rw [hmade.feeds, hmade.shapes, FirstReal]
  cases fed with
  | nil => simp
  | cons x fed =>
      have hdeclares : m.DeclaresReal earlier x.1.key ↔ x.2.dtype = .float32 := by
        rcases hc.expected hids hsplit hmade List.mem_cons_self with
          ⟨K, hK, rfl⟩ | ⟨hkey, hexpected⟩
        · have hnodup := hc.nodup
          rw [hsplit, List.map_append] at hnodup
          have hfound : earlier.reverse.find? (·.id == K.id) = some K := by
            have hsome : (earlier.reverse.find? (·.id == K.id)).isSome = true := by
              rw [List.find?_isSome]
              exact ⟨K, List.mem_reverse.mpr hK, beq_self_eq_true K.id⟩
            obtain ⟨K', hK'⟩ := Option.isSome_iff_exists.mp hsome
            have hmem := List.mem_reverse.mp (List.mem_of_find?_eq_some hK')
            have hid : K'.id = K.id := by simpa using List.find?_some hK'
            rw [hK', List.inj_on_of_nodup_map hnodup.of_append_left hmem hK hid]
          rw [Model.DeclaresReal, Origin.key, hfound]
        · have hnone : earlier.reverse.find? (·.id == x.1.key) = none := by
            rw [List.find?_eq_none]
            intro K hK hid
            refine hkey ?_
            rw [hsplit, ← eq_of_beq hid]
            exact List.mem_map_of_mem (List.mem_append_left _ (List.mem_reverse.mp hK))
          rw [Model.DeclaresReal, hnone]
          simp [hexpected]
      simp [hdeclares]

end Compilation

/-- The layers of a pass that comes to its end all give what they declare if and only if each of them
agrees with the types declared before it. In a graph with plain ids that is to say that real numbers
are declared to enter every layer that casts. -/
theorem Model.run_right_iff {seed : Value} {g : Graph} {input : Option InputSpec} {m : Model α}
    (h : (compile Stock.catalog seed g input).1 = .ok m) {xs : List (String × Signal α)}
    (hxs : Pass.Typed m xs) (mode : PassMode) (gen : Generator)
    (hend : (m.run (.named xs) mode gen).fault? = none) :
    (m.run (.named xs) mode gen).visits.map (·.layer) = m.layers ∧
      ((∀ v ∈ (m.run (.named xs) mode gen).visits, v.Right) ↔
        ∀ earlier L later, m.layers = earlier ++ L :: later → m.Agrees mode earlier L) ∧
      (g.PlainIds → ((∀ v ∈ (m.run (.named xs) mode gen).visits, v.Right) ↔
        ∀ L ∈ m.layers, L.Casts mode → FirstReal L.inputShapes)) := by
  have hc := Compilation.compile_compiled h
  have hkernels : ∀ L ∈ m.layers, ∃ k, Kernel.ofKind? L.kind = some k ∧
      k.outputShape L.params L.inputShapes = .ok L.outputShape := by
    intro L hL
    obtain ⟨earlier, later, hsplit⟩ := List.append_of_mem hL
    obtain ⟨n, k, d, fed, hmade⟩ := hc.made earlier L later hsplit
    exact ⟨k, hmade.kind ▸ hmade.kernel, hmade.output⟩
  rcases hrun : Pass.visitAll m (.named xs) mode m.layers [] gen with ⟨visits, fault?, gen'⟩
  have hrun' : m.run (.named xs) mode gen = ⟨mode, false, visits, fault?, gen'⟩ := by
    simp only [Model.run, hrun]
  rw [hrun'] at hend ⊢
  obtain rfl : fault? = none := hend
  obtain ⟨hlayers, hall⟩ := Pass.visitAll_right_iff
    (fun key hkey => Compilation.compile_expects h hkey) hxs hkernels mode
    (List.nil_append _).symm rfl hrun
  have hagrees : (∀ v ∈ visits, v.Right) ↔
      ∀ earlier L later, m.layers = earlier ++ L :: later → m.Agrees mode earlier L := by
    simpa using hall
  refine ⟨hlayers, hagrees, ?_⟩
  intro hids
  rw [hagrees]
  constructor
  · intro hagrees L hL
    obtain ⟨earlier, later, hsplit⟩ := List.append_of_mem hL
    exact (hagrees earlier L later hsplit).casts
  · intro hcasts earlier L later hsplit
    have hL : L ∈ m.layers := hsplit ▸ List.mem_append_right _ List.mem_cons_self
    exact ⟨hcasts L hL, fun _ => hc.declaresReal_iff hids hsplit⟩

/-! ## A layer fed from labels -/

/-- A layer of some type that is fed from labels. -/
def labelled (blockType : String) : Graph :=
  let node (id blockType : String) : Node := ⟨id, blockType, [], .null, false, .null, []⟩
  { nodes := [node "data" "DataLoader", node "first" blockType]
    connections := [⟨.null, "data", .text "labels", "first", .text "input", .null, .null, []⟩] }

/-- Two labels. -/
def labelSamples : List (String × Signal Float) :=
  [("data.labels", .whole (Tensor.filled [2, 1] 0))]

/-- What a pass over the two labels shows: what its layers are fed from, what the model expects from
outside, whether the pass comes to its end, and the types that its layers give and declare. -/
structure LabelRun where
  feeds : List (List String)
  external : List (String × TensorShape)
  ended : Bool
  types : List (Bool × DType)
  deriving DecidableEq

/-- A pass over the two labels. -/
def Model.labelPass (m : Model Float) : Pass Float :=
  m.run (.named labelSamples) ⟨false, false⟩ (.seeded 0)

def Model.labelRun (m : Model Float) : LabelRun :=
  ⟨m.layers.map (·.feeds), m.externalInputs, m.labelPass.fault?.isNone,
    m.labelPass.visits.map fun v => (v.output.isReal, v.layer.outputShape.dtype)⟩

/-- The one key that layers read is that of the labels. -/
theorem Model.expects_labels {m : Model Float} {ended : Bool} {types : List (Bool × DType)}
    (h : m.labelRun = ⟨[["data.labels"]], [("data.labels", DatasetSpec.labelShape)], ended, types⟩)
    {L : Layer Float} (hL : L ∈ m.layers) {key : String} (hkey : key ∈ L.feeds) :
    key = "data.labels" ∧ Pass.expected? m key = some DatasetSpec.labelShape := by
  have hfeeds : m.layers.map (·.feeds) = [["data.labels"]] := congrArg LabelRun.feeds h
  have hexternal : m.externalInputs = [("data.labels", DatasetSpec.labelShape)] :=
    congrArg LabelRun.external h
  have hmem : L.feeds ∈ m.layers.map (·.feeds) := List.mem_map_of_mem hL
  rw [hfeeds, List.mem_singleton] at hmem
  obtain rfl := List.mem_singleton.mp (hmem ▸ hkey)
  refine ⟨rfl, ?_⟩
  rw [Pass.expected?, if_neg (by decide), hexternal]
  rfl

theorem Model.typed_labelSamples {m : Model Float} {ended : Bool} {types : List (Bool × DType)}
    (h : m.labelRun =
      ⟨[["data.labels"]], [("data.labels", DatasetSpec.labelShape)], ended, types⟩) :
    m.SettledOutside ∧ Pass.Typed m labelSamples := by
  constructor
  · rintro key ⟨⟨L, hL, hkey⟩, -⟩ s hs
    obtain ⟨-, hexpected⟩ := m.expects_labels h hL hkey
    obtain rfl := Option.some.inj (hexpected.symm.trans hs)
    exact ⟨[1], rfl, by decide, by decide⟩
  · rintro key ⟨earlier, L, later, hsplit, hkey, -⟩ s hs
    have hL : L ∈ m.layers := hsplit ▸ List.mem_append_right _ List.mem_cons_self
    obtain ⟨rfl, hexpected⟩ := m.expects_labels h hL hkey
    obtain rfl := Option.some.inj (hexpected.symm.trans hs)
    exact ⟨_, rfl, by decide⟩

theorem labelled_plainIds (blockType : String) : (labelled blockType).PlainIds := by
  have hids : (labelled blockType).nodes.map (·.id) = ["data", "first"] := rfl
  have hall : ∀ id ∈ (labelled blockType).nodes.map (·.id), '.' ∉ id.toList ∧ id ≠ modelInput := by
    rw [hids]
    decide
  refine ⟨hids ▸ by decide, ?_, ?_⟩
  · exact fun n hn => (hall n.id (List.mem_map_of_mem hn)).1
  · exact fun n hn => (hall n.id (List.mem_map_of_mem hn)).2

/-- Labels in rows are labels still. -/
theorem run_right_iff_rows : ∃ m : Model Float,
    (compile Stock.catalog (.int 0) (labelled "Flatten") none).1 = .ok m ∧
      Pass.Typed m labelSamples ∧ m.labelPass.fault? = none ∧
      m.labelPass.visits.map (·.layer) = m.layers ∧
      ((∀ v ∈ m.labelPass.visits, v.Right) ↔
        ∀ earlier L later, m.layers = earlier ++ L :: later →
          m.Agrees ⟨false, false⟩ earlier L) ∧
      ((labelled "Flatten").PlainIds → ((∀ v ∈ m.labelPass.visits, v.Right) ↔
        ∀ L ∈ m.layers, L.Casts ⟨false, false⟩ → FirstReal L.inputShapes)) := by
  have hrun : ((compile Stock.catalog (.int 0) (labelled "Flatten") none).1.toOption.map
      Model.labelRun) = some ⟨[["data.labels"]], [("data.labels", DatasetSpec.labelShape)], true,
        [(false, .int32)]⟩ := by
    decide +kernel
  obtain ⟨m, hm, hfacts⟩ := Option.map_eq_some_iff.mp hrun
  have hok := toOption_eq_some.mp hm
  obtain ⟨-, hxs⟩ := Model.typed_labelSamples hfacts
  have hend : m.labelPass.fault? = none :=
    Option.isNone_iff_eq_none.mp (congrArg LabelRun.ended hfacts)
  exact ⟨m, hok, hxs, hend, Model.run_right_iff hok hxs ⟨false, false⟩ (.seeded 0) hend⟩

/-- An activation of labels gives real numbers, although it declares whole ones. -/
theorem labelled_activation_casts : (labelled "Activation").PlainIds ∧ ∃ m : Model Float,
    (compile Stock.catalog (.int 0) (labelled "Activation") none).1 = .ok m ∧
      m.SettledOutside ∧ Pass.Typed m labelSamples ∧ m.labelPass.fault? = none ∧
      ∃ v ∈ m.labelPass.visits, v.output.isReal = true ∧ v.layer.outputShape.dtype = .int32 := by
  have hrun : ((compile Stock.catalog (.int 0) (labelled "Activation") none).1.toOption.map
      Model.labelRun) = some ⟨[["data.labels"]], [("data.labels", DatasetSpec.labelShape)], true,
        [(true, .int32)]⟩ := by
    decide +kernel
  obtain ⟨m, hm, hfacts⟩ := Option.map_eq_some_iff.mp hrun
  obtain ⟨hshapes, hxs⟩ := Model.typed_labelSamples hfacts
  have hend : m.labelPass.fault? = none :=
    Option.isNone_iff_eq_none.mp (congrArg LabelRun.ended hfacts)
  have htypes := congrArg LabelRun.types hfacts
  refine ⟨labelled_plainIds _, m, toOption_eq_some.mp hm, hshapes, hxs, hend, ?_⟩
  have hmem : (true, DType.int32) ∈ m.labelRun.types := by
    rw [htypes]
    exact List.mem_cons_self
  obtain ⟨v, hv, hboth⟩ := List.mem_map.mp hmem
  obtain ⟨hreal, hwhole⟩ := Prod.mk.inj hboth
  exact ⟨v, hv, hreal, hwhole⟩

end BlockNet
