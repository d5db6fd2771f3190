import BlockNet.Layer.Basic
/-! # Affine maps of rows

The map `x ↦ x · w + b` on every row of a tensor, and its slopes. The weight is read through a
function of input and output position, so either of its two layouts will do. -/

namespace BlockNet.Affine

variable {α : Type} [Scalar α]

/-- Every row of `inputs` numbers mapped to `outputs` numbers. -/
def apply (x : Tensor α) (dims : List Nat) (inputs outputs : Nat) (w : Nat → Nat → α)
    (b : Nat → α) : Tensor α :=
  Tensor.ofRows dims outputs fun r =>
    Tensor.row outputs fun j =>
      Scalar.sum inputs (fun k => x.entry (r * inputs + k) * w k j) + b j

/-- The slopes at the rows, from the slopes `g` at the results. -/
def inputSlopes (g : Tensor α) (dims : List Nat) (inputs outputs : Nat) (w : Nat → Nat → α) :
    Tensor α :=
  Tensor.ofRows dims inputs fun r =>
    Tensor.row inputs fun k => Scalar.sum outputs fun j => g.entry (r * outputs + j) * w k j

/-- The slope at the weight between an input and an output position, over `rows` rows. -/
def weightSlope (x g : Tensor α) (rows inputs outputs k j : Nat) : α :=
  Scalar.sum rows fun r => x.entry (r * inputs + k) * g.entry (r * outputs + j)

/-- The slopes at the bias, over `rows` rows. -/
def biasSlopes (g : Tensor α) (rows outputs : Nat) : Tensor α :=
  Tensor.ofFn [outputs] fun j => Scalar.sum rows fun r => g.entry (r * outputs + j)

end BlockNet.Affine
