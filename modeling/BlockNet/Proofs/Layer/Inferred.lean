import BlockNet.Proofs.Graph.Verdicts
import BlockNet.Proofs.Layer.Single
import BlockNet.Proofs.Shape.Settled

/-! # Inferred shapes

The shape that a node is inferred to produce from a known input and the shape that its kernel makes of it
are the same wherever both are about the same axes. The rule has a shape for every input, while a kernel
refuses one of which pooling would leave nothing. -/

namespace BlockNet

/-- The shape of real numbers with a batch axis and axes of given sizes. -/
def TensorShape.known (sizes : List Nat) : TensorShape := batched (sizes.map Dim.size) .float32

/-- The ranks at which a kernel keeps the axes that enter, as the rule of its block type does. -/
def Kernel.KeepsAxes (k : Kernel) (params : Entries) (rank : Nat) : Prop :=
  match k with
  | .dense | .dropout | .activation | .batchNorm | .layerNorm => True
  | .convolution | .pooling => rank = 4
  | .attention => rank = 3
  | .recurrent => rank = if Recurrent.keepsSteps params then 3 else 2
  | .flatten | .addition | .concatenation => False

namespace TensorShape

/-! ## Views of known shapes -/

theorem featureSize_known {sizes : List Nat} (h : sizes ≠ []) (kind : String) :
    (known sizes).featureSize kind = .ok (sizes.getLast h) := by
  have hlast : (known sizes).dims.getLast? = some (.size (sizes.getLast h)) := by
    rw [known, batched, List.getLast?_cons, List.getLast?_map, List.getLast?_eq_some_getLast h]
    rfl
  rw [featureSize, hlast]
  rfl

theorem imageSize_known (height width channels : Nat) (kind : String) :
    (known [height, width, channels]).imageSize kind = .ok ⟨height, width, channels⟩ := rfl

theorem sequenceSize_known_pair (steps features : Nat) (kind : String) :
    (known [steps, features]).sequenceSize kind = .ok ⟨steps, features⟩ := by
  change Except.ok (SequenceSize.mk (volume [steps]) features) = _
  rw [volume_cons, volume_nil, Nat.mul_one]

theorem sequenceSize_known_single (features : Nat) (kind : String) :
    (known [features]).sequenceSize kind = .ok ⟨1, features⟩ := rfl

/-- Is nothing left of the height or the width of an image? -/
def Vanishes (s : TensorShape) : Prop := s.dims[1]? = some (.size 0) ∨ s.dims[2]? = some (.size 0)

/-- Another size for an axis keeps the element type. -/
theorem dtype_withSize {s s' : TensorShape} {index size : Int} (h : s.withSize index size = .ok s') :
    s'.dtype = s.dtype := by
  obtain ⟨i, -, h⟩ := bind_eq_ok.mp h
  obtain ⟨d, -, h⟩ := bind_eq_ok.mp h
  obtain rfl := Except.ok.inj h
  rfl

end TensorShape

open TensorShape

/-! ## Kernels and rules -/

namespace Stock

variable {params : Entries} {rest : List TensorShape}

/-- Dense and recurrent blocks share a rule: the last axis takes the number of units. -/
theorem units_rule {t : String} (ht : t = Dense.kind ∨ t = Recurrent.kind) {sizes : List Nat} :
    shapeRule t params (known sizes) =
      params.integer "units" >>= (known sizes).withSize (-1) := by
  have hrank : ¬(known sizes).rank = 0 := by simp [known, batched, rank]
  rcases ht with rfl | rfl
  · simp only [shapeRule, Dense.kind, hrank, if_false]
  · simp only [shapeRule, Recurrent.kind, hrank, if_false]

theorem dense_eq_rule {sizes : List Nat} (h : sizes ≠ []) :
    Dense.outputShape params (known sizes :: rest) =
      shapeRule Dense.kind params (known sizes) := by
  rw [units_rule (.inl rfl), Dense.outputShape, firstOf_cons, ok_bind, featureSize_known h, ok_bind]
  cases params.integer "units" with
  | error fault => rfl
  | ok units =>
      rw [ok_bind, ok_bind]
      cases hsize : (known sizes).withSize (-1) units with
      | error fault => rfl
      | ok s =>
          have hdtype : s.dtype = .float32 := dtype_withSize hsize
          rw [ok_bind, ← hdtype]
          rfl

theorem convolution_eq_rule {height width channels filters : Nat}
    (h : params.integer "filters" = .ok (filters : Int)) :
    Convolution.outputShape params (known [height, width, channels] :: rest) =
      shapeRule Convolution.kind params (known [height, width, channels]) := by
  have hrule : shapeRule Convolution.kind params (known [height, width, channels]) =
      params.integer "filters" >>= (known [height, width, channels]).withSize 3 := rfl
  rw [hrule, Convolution.outputShape, firstOf_cons, ok_bind, imageSize_known, ok_bind, h]
  rfl

theorem attention_eq_rule {steps features size : Nat} (h : params.integer "dim" = .ok (size : Int)) :
    Attention.outputShape params (known [steps, features] :: rest) =
      shapeRule Attention.kind params (known [steps, features]) := by
  have hrule : shapeRule Attention.kind params (known [steps, features]) =
      params.integer "dim" >>= (known [steps, features]).withSize 2 := rfl
  rw [hrule, Attention.outputShape, firstOf_cons, ok_bind, sequenceSize_known_pair, ok_bind, h]
  rfl

theorem recurrent_eq_rule_steps {steps features units : Nat}
    (h : params.integer "units" = .ok (units : Int)) (hsteps : Recurrent.keepsSteps params = true) :
    Recurrent.outputShape params (known [steps, features] :: rest) =
      shapeRule Recurrent.kind params (known [steps, features]) := by
  rw [units_rule (.inr rfl), Recurrent.outputShape, firstOf_cons, ok_bind,
    sequenceSize_known_pair, ok_bind, h, ok_bind, hsteps]
  rfl

theorem recurrent_eq_rule_last {features units : Nat}
    (h : params.integer "units" = .ok (units : Int)) (hlast : Recurrent.keepsSteps params = false) :
    Recurrent.outputShape params (known [features] :: rest) =
      shapeRule Recurrent.kind params (known [features]) := by
  rw [units_rule (.inr rfl), Recurrent.outputShape, firstOf_cons, ok_bind,
    sequenceSize_known_single, ok_bind, h, ok_bind, hlast]
  rfl

theorem pooled_known {s : TensorShape} {index n pool : Nat} (hpool : 0 < pool)
    (hn : s.dims[index]? = some (.size n)) :
    s.pooled pool index = s.withSize index (n / pool : Nat) := by
  simp only [pooled, hn]
  rw [if_neg (by omega), ← Int.ofNat_fdiv]

/-- The rule divides height and width, whatever is left of them. -/
theorem pooling_rule {height width channels pool : Nat} (hpool : 0 < pool)
    (h : params.integer "pool_size" = .ok (pool : Int)) :
    shapeRule Pooling.kind params (known [height, width, channels]) =
      .ok (known [height / pool, width / pool, channels]) := by
  have hrule : shapeRule Pooling.kind params (known [height, width, channels]) = (do
      let pool ← params.integer "pool_size"
      let s ← (known [height, width, channels]).pooled pool 1
      s.pooled pool 2) := rfl
  have hheight : (known [height, width, channels]).pooled pool 1 =
      .ok (known [height / pool, width, channels]) := pooled_known hpool rfl
  have hwidth : (known [height / pool, width, channels]).pooled pool 2 =
      .ok (known [height / pool, width / pool, channels]) := pooled_known hpool rfl
  rw [hrule, h, ok_bind, hheight, ok_bind, hwidth]

/-- The kernel refuses an image of which nothing would be left. -/
theorem pooling_iff {height width channels pool : Nat} {out : TensorShape} (hpool : 0 < pool)
    (h : params.integer "pool_size" = .ok (pool : Int)) :
    Pooling.outputShape params (known [height, width, channels] :: rest) = .ok out ↔
      out = known [height / pool, width / pool, channels] ∧ height / pool ≠ 0 ∧ width / pool ≠ 0 := by
  have hzero : ¬(pool : Int) = 0 := by omega
  rw [Pooling.outputShape, firstOf_cons, ok_bind, imageSize_known, ok_bind, h, ok_bind, if_neg hzero]
  simp only [← Int.ofNat_fdiv, Int.natCast_eq_zero]
  split
  · rename_i hnone
    refine iff_of_false (fun hout => ?_) fun hout => hnone.elim hout.2.1 hout.2.2
    cases hout
  · rename_i hleft
    rw [not_or] at hleft
    have hsample : ofSample [((height / pool : Nat) : Int), ((width / pool : Nat) : Int), channels] =
        .ok (known [height / pool, width / pool, channels]) := ofSample_map [_, _, _]
    rw [hsample, Except.ok.injEq, eq_comm]
    exact (and_iff_left hleft).symm

/-! ## All kernels -/

variable {k : Kernel} {sizes : List Nat}

/-- But for pooling, the kernel follows the rule of its block type. -/
theorem outputShape_eq_rule (hfit : params.Fit k.settings) (hsizes : sizes ≠ [])
    (hkeeps : k.KeepsAxes params (sizes.length + 1)) (hpool : k ≠ .pooling) :
    k.outputShape params (known sizes :: rest) = shapeRule k.kind params (known sizes) := by
  cases k with
  | dense => exact dense_eq_rule hsizes
  | convolution =>
      obtain ⟨height, width, channels, rfl⟩ := List.length_eq_three.mp (Nat.succ.inj hkeeps)
      obtain ⟨filters, -, hfilters⟩ := hfit.size (.head _)
      exact convolution_eq_rule hfilters
  | pooling => exact absurd rfl hpool
  | dropout => rfl
  | activation => rfl
  | batchNorm => rfl
  | layerNorm => rfl
  | recurrent =>
      obtain ⟨units, -, hunits⟩ := hfit.size (.head _)
      rw [Kernel.KeepsAxes] at hkeeps
      cases hsteps : Recurrent.keepsSteps params with
      | true =>
          rw [hsteps] at hkeeps
          obtain ⟨steps, features, rfl⟩ := List.length_eq_two.mp (Nat.succ.inj hkeeps)
          exact recurrent_eq_rule_steps hunits hsteps
      | false =>
          rw [hsteps] at hkeeps
          obtain ⟨features, rfl⟩ := List.length_eq_one_iff.mp (Nat.succ.inj hkeeps)
          exact recurrent_eq_rule_last hunits hsteps
  | attention =>
      obtain ⟨steps, features, rfl⟩ := List.length_eq_two.mp (Nat.succ.inj hkeeps)
      obtain ⟨size, -, hsize⟩ := hfit.size (.tail _ (.head _))
      exact attention_eq_rule hsize
  | flatten => exact hkeeps.elim
  | addition => exact hkeeps.elim
  | concatenation => exact hkeeps.elim

/-! ## Inference -/

/-- The block of a kernel has one output, of real numbers. -/
theorem exists_output (k : Kernel) : ∃ d p, catalog.get? k.kind = some d ∧ d.outputs = [p] ∧
    p.name = .text "output" ∧ p.shape.dtype = .float32 := by
  cases k <;> exact ⟨_, _, rfl, rfl, rfl, rfl⟩

theorem inferOutputShape_known {node : Node} {port : Value} (hkind : node.blockType = k.kind)
    (hport : port = .null ∨ port = .text "output") (hkeys : node.params.TextKeys)
    (hparams : node.effectiveParams catalog = .ok params) :
    inferOutputShape catalog node port (some (known sizes)) =
      shapeRule k.kind params (known sizes) := by
  obtain ⟨d, p, hd, houtputs, hname, hdtype⟩ := exists_output k
  have htemplate : d.outputTemplate port = .ok p.shape := by
    rcases hport with rfl | rfl
    · simp only [BlockDefinition.outputTemplate, houtputs]
    · have hfound : d.outputPort? (.text "output") = some p := by
        rw [BlockDefinition.outputPort?, houtputs, List.find?_cons_of_pos]
        rw [hname]
        rfl
      simp only [BlockDefinition.outputTemplate, houtputs, hfound]
  have hrequire : catalog.require node.blockType = .ok d := by
    rw [hkind, Catalog.require, hd]
  rw [Node.effectiveParams, hrequire, ok_bind] at hparams
  have hsortable := (d.effectiveParams_textKeys (textParams hd) hkeys hparams).sortable
  have hcall : node.ruleCall catalog port (some (known sizes)) =
      .ok ⟨k.kind, params, known sizes⟩ := by
    rw [Node.ruleCall, hrequire, ok_bind, htemplate, ok_bind, hparams, hkind, hdtype]
    rfl
  rw [inferOutputShape, hcall, ok_bind, RuleCall.shape, if_pos hsortable]

/-- Where a kernel keeps the axes that enter, a node of its type is inferred to have a shape, whatever
known sizes enter and whatever its settings are, as long as they stand under names and can be read. What
the kernel makes of the same input is this shape, and nothing else can keep the kernel from it than a
pooled image without height or width. -/
theorem inferOutputShape_eq_outputShape {node : Node} {port : Value} (hkind : node.blockType = k.kind)
    (hport : port = .null ∨ port = .text "output") (hkeys : node.params.TextKeys)
    (hparams : node.effectiveParams catalog = .ok params) (hsizes : sizes ≠ [])
    (hkeeps : k.KeepsAxes params (known sizes).rank) (rest : List TensorShape) :
    ∃ inferred, inferOutputShape catalog node port (some (known sizes)) = .ok inferred ∧
      ∀ out, k.outputShape params (known sizes :: rest) = .ok out ↔
        out = inferred ∧ (k = .pooling → ¬inferred.Vanishes) := by
  obtain ⟨d, -, hd, -⟩ := exists_output k
  have hfit : params.Fit k.settings := by
    rw [Node.effectiveParams, hkind, Catalog.require, hd, ok_bind] at hparams
    exact Kernel.fit_settings hd hparams
  have hrank : (known sizes).rank = sizes.length + 1 := by
    rw [known, batched, rank, List.length_cons, List.length_map]
  rw [hrank] at hkeeps
  rw [inferOutputShape_known hkind hport hkeys hparams]
  by_cases hpool : k = .pooling
  · subst hpool
    obtain ⟨height, width, channels, rfl⟩ := List.length_eq_three.mp (Nat.succ.inj hkeeps)
    obtain ⟨pool, hpos, hsize⟩ := hfit.size (.head _)
    refine ⟨_, pooling_rule hpos hsize, fun out => (pooling_iff hpos hsize).trans ?_⟩
    have hleft : ¬(known [height / pool, width / pool, channels]).Vanishes ↔
        height / pool ≠ 0 ∧ width / pool ≠ 0 := by
      simp [Vanishes, known, batched]
    simp only [hleft, forall_const]
  · obtain ⟨inferred, hrule⟩ : ∃ inferred, shapeRule k.kind params (known sizes) = .ok inferred := by
      rw [Node.effectiveParams, hkind, Catalog.require, hd, ok_bind] at hparams
      exact exists_shapeRule hd hparams _
    refine ⟨inferred, hrule, fun out => ?_⟩
    rw [outputShape_eq_rule hfit hsizes hkeeps hpool, hrule, Except.ok.injEq, eq_comm]
    exact (and_iff_left fun h => absurd h hpool).symm

/-- A recurrent block that gives its state at every step. -/
def unrolled : Node :=
  ⟨"memory", "LSTM", [(.text "return_sequences", .bool true)], .null, false, .null, []⟩

/-- The settings of the block: the default number of units, and a state at every step. -/
def unrolledParams : Entries := [(.text "units", .int 128), (.text "return_sequences", .bool true)]

/-- Five steps come in and five steps of states go out, in the rule as in the kernel. -/
theorem inferOutputShape_eq_outputShape_unrolled :
    unrolled.effectiveParams catalog = .ok unrolledParams ∧
      inferOutputShape catalog unrolled .null (some (known [5, 3])) = .ok (known [5, 128]) ∧
        Kernel.recurrent.outputShape unrolledParams [known [5, 3]] = .ok (known [5, 128]) := by
  have hparams : unrolled.effectiveParams catalog = .ok unrolledParams := rfl
  have hkeys : unrolled.params.TextKeys := by simp [unrolled, Entries.TextKeys]
  have hinferred : inferOutputShape catalog unrolled .null (some (known [5, 3])) =
      .ok (known [5, 128]) := rfl
  obtain ⟨inferred, heq, hout⟩ := inferOutputShape_eq_outputShape (k := .recurrent) rfl (.inl rfl) hkeys
    hparams (List.cons_ne_nil 5 [3]) rfl []
  obtain rfl : known [5, 128] = inferred := Except.ok.inj (hinferred.symm.trans heq)
  exact ⟨hparams, hinferred, (hout _).mpr ⟨rfl, fun h => absurd h (by decide)⟩⟩

end Stock

end BlockNet
