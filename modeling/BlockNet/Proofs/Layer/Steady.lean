import BlockNet.Layer.Kernel
import BlockNet.Proofs.Layer.Rate
import BlockNet.Proofs.Layer.Forward

/-! # Layers that draw nothing

A layer reads the mode and the stream only to drop something. Outside of training nothing is dropped,
and in training nothing is dropped at a rate of zero. What a layer then gives is settled by its
settings, its weights and its inputs. -/

namespace BlockNet

variable {α β γ : Type}

/-! ## Computations without a stream -/

theorem lift_bind (x : Outcome β) (f : β → Outcome γ) :
    (liftM (x >>= f) : Draws γ) = (liftM x >>= fun b => liftM (f b)) := by
  cases x <;> rfl

theorem lift_mapM (f : β → Outcome γ) (xs : List β) :
    (liftM (xs.mapM f) : Draws (List γ)) = xs.mapM fun x => (liftM (f x) : Draws γ) := by
  induction xs with
  | nil => rfl
  | cons x xs ih =>
      rw [List.mapM_cons, List.mapM_cons, lift_bind]
      refine bind_congr fun y => ?_
      rw [lift_bind, ih]
      rfl

/-- A stream that is looked at and not used might as well not be looked at. -/
theorem get_bind_const (x : Draws β) : ((get : Draws Generator) >>= fun _ => x) = x := rfl

variable [Scalar α]

/-! ## Rates of zero -/

variable (α) in
/-- What compares as zero is not above zero, and zero compares as zero. -/
structure Scalar.KnowsZero : Prop where
  same_zero : Scalar.same (0 : α) 0 = true
  not_above : ∀ x : α, Scalar.same x 0 = true → Scalar.less 0 x = false

open Float.Model in
theorem Scalar.knowsZero : Scalar.KnowsZero Float := by
  refine ⟨by decide, fun x hx => ?_⟩
  change (x == 0.0) = true at hx
  change decide (0.0 < x) = false
  rw [beq_eq_unpack, Attention.unpack_zero] at hx
  rw [decide_eq_false_iff_not, lt_iff_unpack, Attention.unpack_zero]
  cases hparts : x.toModel.unpack with
  | zero sign => exact Bool.false_ne_true
  | notANumber => rw [hparts] at hx; cases hx
  | infinity sign => rw [hparts] at hx; cases sign <;> cases hx
  | finite sign m e hm => rw [hparts] at hx; cases sign <;> cases hx

/-- Is it zero that a computation comes to? -/
def Scalar.isNought (x : Outcome α) : Bool :=
  match x with
  | .ok x => Scalar.same x 0
  | .error _ => false

theorem Scalar.isNought_iff {x : Outcome α} :
    Scalar.isNought x = true ↔ ∃ rate, x = .ok rate ∧ Scalar.same rate 0 = true := by
  cases x with
  | error fault => simp [isNought]
  | ok rate => simp [isNought]

/-! ## Attention without dropped shares -/

namespace Attention

/-- The result of a layer that keeps all shares. -/
def undropped (layer : Layer α) (inputs : List (Signal α)) : Outcome (Tensor α) := do
  let size ← layer.params.integer "dim"
  let count ← heads size (← layer.params.integer "heads")
  let shapes ← streams layer.inputShapes
  let signals ← streams inputs
  let projected ← (streamNames.zip (signals.zip shapes)).mapM fun (name, input, shape) =>
    project layer name input shape
  match projected with
  | [q, k, v] =>
      if count < 0 then mishap .badTensor
      else
        let e ← extentOf q k v count.toNat (size / count).toNat
        let w ← layer.weight "w_o"
        let b ← layer.weight "b_o"
        .ok (affine (weighed e .whole (e.allShares q k) v) [e.batch, e.queries, e.size] w b)
  | _ => mishap .badTensor

/-- At a rate of zero all shares are kept, and no seed is drawn. -/
theorem forward_undropped {layer : Layer α} {mode : PassMode} {rate : α}
    (hrate : rateOf layer.params mode.training = .ok rate) (hzero : Scalar.same rate 0 = true)
    (hkept : isThinned rate = false) (inputs : List (Signal α)) :
    forward layer inputs mode = liftM (undropped layer inputs) := by
  have hmask : ∀ (e : Extent) start, maskOf e rate mode.streamed start = .ok .whole :=
    fun e start => if_pos hzero
  simp only [forward, undropped, lift_bind, lift_mapM]
  refine bind_congr fun size => bind_congr fun wanted => bind_congr fun count => ?_
  refine bind_congr fun shapes => bind_congr fun signals => bind_congr fun projected => ?_
  match projected with
  | [] | [_] | [_, _] | _ :: _ :: _ :: _ :: _ => rfl
  | [q, k, v] =>
      by_cases hsign : count < 0
      · simp only [hsign, if_true]
      · simp only [hsign, if_false, hrate, lift_ok_bind, lift_bind]
        refine bind_congr fun e => ?_
        simp only [hkept, Bool.false_and, Bool.false_eq_true, if_false, hmask, lift_ok_bind]
        exact get_bind_const _

end Attention

/-! ## Kernels -/

namespace Kernel

/-- Is the rate zero at which a layer drops something in training, if its kernel has one? -/
def dropsNothing (k : Kernel) (layer : Layer α) : Bool :=
  match k with
  | .dropout => Scalar.isNought (layer.params.real "rate" : Outcome α)
  | .attention => Scalar.isNought (Attention.rateOf layer.params true : Outcome α)
  | _ => true

/-- The result of a layer that drops nothing. -/
def steady (k : Kernel) (layer : Layer α) (inputs : List (Signal α)) : Outcome (Signal α) := do
  match k with
  | .flatten => (← firstOf inputs).flattened
  | .dropout =>
      let x ← firstOf inputs
      let _ ← (layer.params.real "rate" : Outcome α)
      .ok x
  | .attention => .ok (.real (← Attention.undropped layer inputs))
  | _ => .ok (.real (← k.quietForward layer inputs))

/-- A layer that drops nothing gives the same in every mode, and draws nothing. -/
theorem forward_steady (hknows : Scalar.KnowsZero α) (k : Kernel) (layer : Layer α)
    (inputs : List (Signal α)) {mode : PassMode}
    (hmode : mode.training = true → k.dropsNothing layer = true) :
    k.forward layer inputs mode = liftM (k.steady layer inputs) := by
  cases k with
  | flatten => rfl
  | dropout =>
      simp only [forward, Dropout.forward, steady, lift_bind]
      refine bind_congr fun x => ?_
      cases hrate : (layer.params.real "rate" : Outcome α) with
      | error fault => rfl
      | ok rate =>
          have hidle : Dropout.isActive rate mode.training = false := by
            cases htraining : mode.training with
            | false => rfl
            | true =>
                have hnought := hmode htraining
                rw [dropsNothing, hrate, Scalar.isNought] at hnought
                simp [Dropout.isActive, Scalar.atMost, hnought]
          rw [lift_ok_bind, hidle]
          rfl
  | attention =>
      obtain ⟨rate, hrate, hzero⟩ : ∃ rate : α,
          Attention.rateOf layer.params mode.training = .ok rate ∧ Scalar.same rate 0 = true := by
        cases htraining : mode.training with
        | false => exact ⟨0, rfl, hknows.same_zero⟩
        | true => exact Scalar.isNought_iff.mp (hmode htraining)
      rw [forward, Attention.forward_undropped hrate hzero (hknows.not_above rate hzero), steady,
        lift_bind]
      rfl
  | _ =>
      rw [forward_of_isQuiet rfl]
      simp only [steady, lift_bind]
      rfl

end Kernel

end BlockNet
