import BlockNet.Model.Compilation
import BlockNet.Proofs.Fault.Layer
import BlockNet.Proofs.Layer.Draws

/-! # Draws for layers that are not made

A layer whose shapes cannot be resolved is left out, and what was drawn for it by then stays drawn.
All kernels look at every shape before they draw, but for attention, which looks at the shape of a
stream only after it has drawn the weights of the streams before. -/

namespace BlockNet

variable {α : Type}

/-! ## Looking before drawing -/

/-- A computation that stops at a shape only before it draws. -/
def LooksFirst (x : Draws α) : Prop :=
  ∀ ⦃kind reason : String⦄ ⦃g g' : Generator⦄,
    x.run g = (.error (.unresolvedShape kind reason), g') → g' = g

theorem looksFirst_pure (a : α) : LooksFirst (pure a : Draws α) := by
  intro kind reason g g' h
  cases congrArg Prod.fst h

theorem looksFirst_lift (x : Outcome α) : LooksFirst (liftM x : Draws α) := by
  intro kind reason g g' h
  exact (run_lift_eq_error.mp h).2.symm

/-- What looks at something and then looks first still looks first. -/
theorem looksFirst_lift_bind {β : Type} {x : Outcome α} {f : α → Draws β}
    (h : ∀ a, LooksFirst (f a)) : LooksFirst (liftM x >>= f) := by
  intro kind reason g g' hrun
  rcases run_lift_bind_eq_error.mp hrun with ⟨-, rfl⟩ | ⟨a, -, hrun⟩
  · rfl
  · exact h a hrun

/-- Does a fault tell of something else than of a shape that cannot be resolved? -/
@[simp]
def Fault.OffShape : Fault → Prop
  | .unresolvedShape _ _ => False
  | _ => True

theorem DrawsFailBy.resolved {x : Draws α} (h : DrawsFailBy Fault.OffShape x) {kind reason : String}
    {g g' : Generator} : x.run g ≠ (.error (.unresolvedShape kind reason), g') := by
  intro hrun
  exact h g _ (congrArg Prod.fst hrun)

theorem DrawsFailBy.looksFirst {x : Draws α} (h : DrawsFailBy Fault.OffShape x) : LooksFirst x := by
  intro kind reason g g' hrun
  exact absurd hrun h.resolved

section Weights

theorem orMishap_offShape {β : Type} (m : Mishap) (x : Option β) :
    FailsBy Fault.OffShape (orMishap m x) := by
  cases x <;> simp [orMishap, mishap]

theorem Value.toInt_offShape (v : Value) : FailsBy Fault.OffShape v.toInt := by
  fun_cases Value.toInt <;> simp [orMishap_offShape, mishap]

theorem Entries.integer_offShape (params : Entries) (name : String) :
    FailsBy Fault.OffShape (params.integer name) := by
  simp [Entries.integer, Entries.require, orMishap_offShape, Value.toInt_offShape]

theorem Value.toFloat_offShape (v : Value) : FailsBy Fault.OffShape v.toFloat := by
  fun_cases Value.toFloat <;> simp [orMishap_offShape, mishap]

theorem axisSizes_offShape (dims : List Int) : FailsBy Fault.OffShape (axisSizes dims) := by
  simp [axisSizes, mishap]

theorem TensorShape.ofSample_offShape (sizes : List Int) :
    FailsBy Fault.OffShape (ofSample sizes) := by
  have hdim : ∀ n : Int, FailsBy Fault.OffShape (Dim.ofInt n) := by
    intro n
    fun_cases Dim.ofInt <;> simp
  simp [ofSample, hdim]

variable [Scalar α]

theorem drawnWeight_offShape (name : String) (dims : List Int) (fanIn fanOut : Int) :
    DrawsFailBy Fault.OffShape (drawnWeight name dims fanIn fanOut : Draws (Weight α)) := by
  refine drawsFailBy_bind ?_ fun _ => by simp
  refine drawsFailBy_lift_bind.mpr ⟨?_, fun _ _ => drawsFailBy_lift_bind.mpr ⟨?_, by simp⟩⟩
  · refine failsBy_bind.mpr ⟨by simp [Number.plus, Number.integer?], fun fans _ => ?_⟩
    exact failsBy_bind.mpr ⟨orMishap_offShape _ _, by simp⟩
  · rw [Value.toList, ok_bind, mapM_toInt, ok_bind, drawnSizes]
    simp [axisSizes_offShape]

theorem constantWeight_offShape (name : String) (dims : List Int) (value : Value) :
    FailsBy Fault.OffShape (constantWeight name dims value : Outcome (Weight α)) := by
  simp [constantWeight, constantTensor, Value.toFloat_offShape, axisSizes_offShape]

theorem biasWeight_offShape (params : Entries) (size : Int) :
    FailsBy Fault.OffShape (biasWeight params size : Outcome (List (Weight α))) := by
  simp [biasWeight, constantWeight_offShape]

end Weights

/-! ## Streams of attention -/

namespace Attention

/-- The draws for the weights of streams, up to the first one that cannot be resolved. -/
def spent (size : Int) : List TensorShape → Nat
  | [] => 0
  | shape :: rest =>
      match shape.sequenceSize kind with
      | .ok sequence => volume [size.toNat, sequence.features] + spent size rest
      | .error _ => 0

variable [Scalar α]

/-- The weights of a stream are the first that are drawn for it, and a tensor holds them. -/
theorem buildStream_spends {size : Int} {stream : String × TensorShape} {ws : List (Weight α)}
    {g g' : Generator} (h : (buildStream size stream).run g = (.ok ws, g')) :
    ∃ sequence, stream.2.sequenceSize kind = .ok sequence ∧
      g' = g.skip (volume [size.toNat, sequence.features]) ∧
        volume [size.toNat, sequence.features] ≤ largestVolume := by
  obtain ⟨sequence, hsequence, h⟩ := run_lift_bind_eq_ok.mp h
  obtain ⟨w, _, hw, h⟩ := run_bind_eq_ok.mp h
  obtain ⟨b, -, h⟩ := run_lift_bind_eq_ok.mp h
  obtain ⟨-, rfl⟩ := run_pure_eq_ok.mp h
  obtain ⟨rfl, hle, -⟩ := drawnWeight_stream hw
  have hsize : w.tensor.size = volume [size.toNat, sequence.features] := by
    rw [Tensor.size, (drawnWeight_eq_ok hw).2]
    rfl
  rw [hsize] at hle ⊢
  exact ⟨sequence, hsequence, rfl, hle⟩

/-- Streams that stop at a shape leave drawn what was drawn for those before it. -/
theorem mapM_buildStream_stops {size : Int} {streams : List (String × TensorShape)}
    {kind' reason : String} {g g' : Generator}
    (h : (streams.mapM (buildStream size) : Draws (List (List (Weight α)))).run g =
      (.error (.unresolvedShape kind' reason), g')) :
    g' = g.skip (spent size (streams.map (·.2))) ∧
      spent size (streams.map (·.2)) ≤ streams.length * largestVolume := by
  induction streams generalizing g with
  | nil => cases congrArg Prod.fst h
  | cons stream streams ih =>
      rw [List.mapM_cons] at h
      rw [List.map_cons, spent, List.length_cons]
      rcases run_bind_eq_error.mp h with h | ⟨ws, g₁, hws, h⟩
      · rcases run_lift_bind_eq_error.mp h with ⟨hsequence, rfl⟩ | ⟨sequence, -, h⟩
        · rw [hsequence]
          exact ⟨g.skip_zero.symm, Nat.zero_le _⟩
        · refine absurd h (DrawsFailBy.resolved ?_)
          refine drawsFailBy_bind (drawnWeight_offShape _ _ _ _) fun w => ?_
          exact drawsFailBy_lift_bind.mpr ⟨constantWeight_offShape _ _ _, by simp⟩
      · obtain ⟨sequence, hsequence, rfl, hle⟩ := buildStream_spends hws
        rcases run_bind_eq_error.mp h with h | ⟨rest, _, -, h⟩
        · obtain ⟨hskip, hspent⟩ := ih h
          rw [hsequence]
          refine ⟨by rw [hskip, Generator.skip_skip], ?_⟩
          rw [Nat.add_mul, Nat.one_mul, Nat.add_comm (_ * _)]
          exact Nat.add_le_add hle hspent
        · cases congrArg Prod.fst h

end Attention

/-! ## Kernel by kernel -/

/-- The draws that are spent on a layer whose shapes turn out to be unresolved. -/
def Kernel.spent (k : Kernel) (params : Entries) (shapes : List TensorShape) : Nat :=
  match k with
  | .attention =>
      match params.integer "dim", Attention.streams shapes with
      | .ok size, .ok streams => Attention.spent size streams
      | _, _ => 0
  | _ => 0

section Kernels

variable [Scalar α] {params : Entries} {shapes : List TensorShape} {kind' reason : String}
  {g g' : Generator}

variable (params shapes) in
theorem Dense.build_looksFirst :
    LooksFirst (build params shapes : Draws (List (Weight α))) := by
  refine looksFirst_lift_bind fun shape => looksFirst_lift_bind fun features => ?_
  refine looksFirst_lift_bind fun units => DrawsFailBy.looksFirst ?_
  refine drawsFailBy_bind (drawnWeight_offShape _ _ _ _) fun kernel => ?_
  exact drawsFailBy_lift_bind.mpr ⟨biasWeight_offShape _ _, by simp⟩

variable (params shapes) in
theorem Convolution.build_looksFirst :
    LooksFirst (build params shapes : Draws (List (Weight α))) := by
  refine looksFirst_lift_bind fun shape => looksFirst_lift_bind fun image => ?_
  refine looksFirst_lift_bind fun k => looksFirst_lift_bind fun filters => ?_
  refine DrawsFailBy.looksFirst (drawsFailBy_bind (drawnWeight_offShape _ _ _ _) fun kernel => ?_)
  exact drawsFailBy_lift_bind.mpr ⟨biasWeight_offShape _ _, by simp⟩

variable (params shapes) in
theorem Recurrent.build_looksFirst :
    LooksFirst (build params shapes : Draws (List (Weight α))) := by
  refine looksFirst_lift_bind fun shape => looksFirst_lift_bind fun sequence => ?_
  refine looksFirst_lift_bind fun units => DrawsFailBy.looksFirst ?_
  refine drawsFailBy_bind (drawnWeight_offShape _ _ _ _) fun fromInput => ?_
  refine drawsFailBy_bind (drawnWeight_offShape _ _ _ _) fun fromHidden => ?_
  exact drawsFailBy_lift_bind.mpr ⟨constantWeight_offShape _ _ _, by simp⟩

/-- Every kernel but attention looks at all shapes before it draws. -/
theorem Kernel.build_looksFirst {k : Kernel} (hk : k ≠ .attention) :
    LooksFirst (k.build params shapes : Draws (List (Weight α))) := by
  cases k with
  | dense => exact Dense.build_looksFirst params shapes
  | convolution => exact Convolution.build_looksFirst params shapes
  | recurrent => exact Recurrent.build_looksFirst params shapes
  | attention => exact absurd rfl hk
  | batchNorm | layerNorm => exact looksFirst_lift _
  | _ => exact looksFirst_pure []

/-- Attention whose query cannot be resolved is left out before anything is drawn for it. -/
theorem Attention.spent_of_outputShape
    (h : outputShape params shapes = .error (.unresolvedShape kind' reason)) :
    Kernel.attention.spent params shapes = 0 := by
  cases shapes with
  | nil => cases h
  | cons query rest =>
      have hstreams : ∃ others, streams (query :: rest) = .ok (query :: others) := by
        rcases rest with _ | ⟨key, _ | ⟨value, rest⟩⟩ <;> exact ⟨_, rfl⟩
      obtain ⟨others, hstreams⟩ := hstreams
      have hfirst : firstOf (query :: rest) = .ok query := rfl
      rw [outputShape, hfirst, ok_bind] at h
      rw [Kernel.spent, hstreams]
      cases hsize : params.integer "dim" with
      | error fault => rfl
      | ok size =>
          cases hquery : query.sequenceSize kind with
          | error fault => simp [spent, hquery]
          | ok sequence =>
              rw [hquery, ok_bind, hsize, ok_bind] at h
              exact absurd trivial ((TensorShape.ofSample_offShape _ _ h).elim)

theorem Attention.length_streams {β : Type} {inputs streams : List β}
    (h : Attention.streams inputs = .ok streams) : streams.length = 3 := by
  rcases inputs with _ | ⟨q, _ | ⟨k, _ | ⟨v, rest⟩⟩⟩
  · cases h
  · exact congrArg List.length (Except.ok.inj h).symm
  · exact congrArg List.length (Except.ok.inj h).symm
  · exact congrArg List.length (Except.ok.inj h).symm

theorem Attention.build_stops (h : (build params shapes : Draws (List (Weight α))).run g =
    (.error (.unresolvedShape kind' reason), g')) :
    g' = g.skip (Kernel.attention.spent params shapes) ∧
      Kernel.attention.spent params shapes ≤ 3 * largestVolume := by
  rcases run_lift_bind_eq_error.mp h with ⟨hsize, -⟩ | ⟨size, hsize, h⟩
  · exact (Entries.integer_offShape _ _ _ hsize).elim
  rcases run_lift_bind_eq_error.mp h with ⟨hinputs, -⟩ | ⟨inputs, hinputs, h⟩
  · cases shapes with
    | nil => cases hinputs
    | cons query rest => rcases rest with _ | ⟨key, _ | ⟨value, rest⟩⟩ <;> cases hinputs
  have hlength : (streamNames.zip inputs).length = 3 := by
    rw [List.length_zip, length_streams hinputs]
    rfl
  have hsnd : (streamNames.zip inputs).map (·.2) = inputs :=
    List.map_snd_zip (Nat.le_of_eq (length_streams hinputs))
  rcases run_bind_eq_error.mp h with h | ⟨inner, _, -, h⟩
  · have hstops := mapM_buildStream_stops h
    rw [hsnd, hlength] at hstops
    simp only [Kernel.spent, hsize, hinputs]
    exact hstops
  · refine absurd h (DrawsFailBy.resolved ?_)
    refine drawsFailBy_bind (drawnWeight_offShape _ _ _ _) fun w => ?_
    exact drawsFailBy_lift_bind.mpr ⟨constantWeight_offShape _ _ _, by simp⟩

/-- Nothing is spent on a kernel other than attention. -/
theorem Kernel.spent_of_ne {k : Kernel} (hk : k ≠ .attention) : k.spent params shapes = 0 := by
  cases k with
  | attention => exact absurd rfl hk
  | _ => rfl

/-- Weights that stop at a shape: only attention has drawn by then. -/
theorem Kernel.build_stops {k : Kernel} (h : (k.build params shapes : Draws (List (Weight α))).run g =
    (.error (.unresolvedShape kind' reason), g')) :
    g' = g.skip (k.spent params shapes) ∧ k.spent params shapes ≤ 3 * largestVolume := by
  by_cases hk : k = .attention
  · rw [hk] at h ⊢
    exact Attention.build_stops h
  · rw [spent_of_ne hk, build_looksFirst hk h]
    exact ⟨g.skip_zero.symm, Nat.zero_le _⟩

/-- A layer that stops at a shape. -/
theorem Compilation.construct_stops {k : Kernel}
    (h : (construct k params shapes : Draws (TensorShape × List (Weight α))).run g =
      (.error (.unresolvedShape kind' reason), g')) :
    g' = g.skip (k.spent params shapes) ∧ k.spent params shapes ≤ 3 * largestVolume := by
  rcases run_lift_bind_eq_error.mp h with ⟨hshape, rfl⟩ | ⟨shape, -, h⟩
  · have hspent : k.spent params shapes = 0 := by
      by_cases hk : k = .attention
      · rw [hk] at hshape ⊢
        exact Attention.spent_of_outputShape hshape
      · exact Kernel.spent_of_ne hk
    rw [hspent]
    exact ⟨g.skip_zero.symm, Nat.zero_le _⟩
  · rcases run_bind_eq_error.mp h with h | ⟨weights, _, -, h⟩
    · exact Kernel.build_stops h
    · cases congrArg Prod.fst h

end Kernels

/-! ## Streams that have moved -/

/-- Fewer draws than there are states leave the stream where it was only if there are none: the step
between two states is odd, so it can be divided by. -/
theorem Generator.skip_eq_self_iff {g : Generator} {n : Nat} (hn : n < UInt64.size) :
    g.skip n = g ↔ n = 0 := by
  constructor
  · intro h
    have hstate : g.state + stride * UInt64.ofNat n = g.state + 0 := by
      rw [UInt64.add_zero]
      exact congrArg state h
    have hsteps : stride * UInt64.ofNat n = 0 := (UInt64.add_right_inj _).mp hstate
    have hinverse : 0xF1DE83E19937733D * stride = 1 := by decide
    have hzero : UInt64.ofNat n = 0 := by
      rw [← UInt64.one_mul (UInt64.ofNat n), ← hinverse, UInt64.mul_assoc, hsteps, UInt64.mul_zero]
    have htoNat := congrArg UInt64.toNat hzero
    rwa [UInt64.toNat_ofNat_of_lt' hn] at htoNat
  · rintro rfl
    exact g.skip_zero

end BlockNet
