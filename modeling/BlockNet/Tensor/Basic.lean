import BlockNet.Shape.Volume
import BlockNet.Tensor.Scalar
import BlockNet.Tensor.Generator
import BlockNet.Value.Reading
/-! # Tensors

A tensor lists its entries row by row, the last axis running fastest. Every tensor is given by a
formula for the entry at a position. -/

namespace BlockNet

/-- How many entries a tensor can hold at most. -/
def largestVolume : Nat := Nat.pow 2 36

/-- The bound that sizes of axes stay below. -/
def sizeBound : Int := Nat.pow 2 63

/-- Sizes of axes. None may be beyond the bound in either direction or negative, and a tensor must be
able to hold what they span. -/
def axisSizes (dims : List Int) : Outcome (List Nat) :=
  if dims.any fun d => d < -sizeBound ∨ sizeBound ≤ d then mishap .wrongType
  else if dims.all (0 ≤ ·) ∧ volume (dims.map Int.toNat) ≤ largestVolume then
    .ok (dims.map Int.toNat)
  else mishap .badTensor

/-- The sizes of axes that values stand for. All must be whole numbers, but behind the first one
truth values count as such. -/
def writtenSizes : List Value → Outcome (List Int)
  | [] => .ok []
  | .int first :: rest => do
      let others ← rest.mapM fun v => orMishap .wrongType (v.number? >>= Number.integer?)
      .ok (first :: others)
  | _ => mishap .wrongType

/-- Sizes of axes of which one may be left open by `-1`. As no entries are drawn for an open axis it
has size zero, which the other sizes must allow. -/
def drawnSizes (dims : List Int) : Outcome (List Nat) :=
  if dims.count (-1) = 1 ∧ dims.all fun d => d = -1 ∨ 0 < d then .ok (dims.map Int.toNat)
  else axisSizes dims

/-- Sizes of axes, and as many entries as they span. -/
structure Tensor (α : Type) where
  dims : List Nat
  entries : Array α
  size_eq : entries.size = volume dims

namespace Tensor

variable {α β γ : Type}

/-- The tensor whose entry at each position is a value of a function. -/
def ofFn (dims : List Nat) (f : Nat → α) : Tensor α :=
  ⟨dims, Array.ofFn fun i : Fin (volume dims) => f i, by simp⟩

/-- The number of entries. -/
def size (t : Tensor α) : Nat := volume t.dims

/-- The number of axes. -/
def rank (t : Tensor α) : Nat := t.dims.length

/-- The size of the last axis, one for a tensor without axes. -/
def width (t : Tensor α) : Nat := t.dims.getLast?.getD 1

/-- The entry at a position, zero beyond the last one. -/
@[inline]
def entry [Zero α] (t : Tensor α) (i : Nat) : α := t.entries.getD i 0

/-- The tensor with every entry changed. -/
def map (f : α → β) (t : Tensor α) : Tensor β := ⟨t.dims, t.entries.map f, by simp [t.size_eq]⟩

/-- The tensor that holds one value everywhere. -/
def filled (dims : List Nat) (value : α) : Tensor α := ofFn dims fun _ => value

/-- The same entries under other axes, if those span as many. -/
def reshape? (t : Tensor α) (dims : List Nat) : Option (Tensor α) :=
  if h : volume dims = volume t.dims then some ⟨dims, t.entries, t.size_eq.trans h.symm⟩ else none

/-- The same entries under other axes, which must span as many and, where there are no entries to
tell their sizes by, stay below the bound. -/
def reshape (t : Tensor α) (dims : List Nat) : Outcome (Tensor α) :=
  if (volume dims = volume t.dims ∧ volume dims ≠ 0) ∨ dims.all fun n => (n : Int) < sizeBound then
    orMishap .badTensor (t.reshape? dims)
  else mishap .wrongType

/-- The tensor of which every run of `width` entries is a row; a row is worked out once. -/
def ofRows [Zero α] (dims : List Nat) (width : Nat) (row : Nat → Array α) : Tensor α :=
  let rows := Array.ofFn fun r : Fin (volume dims / width) => row r
  ofFn dims fun i => (rows.getD (i / width) #[]).getD (i % width) 0

/-- The entries of a row of `width` numbers. -/
@[inline]
def row (width : Nat) (f : Nat → α) : Array α := Array.ofFn fun j : Fin width => f j

/-- The sum of all entries. -/
def total [Scalar α] (t : Tensor α) : α := Scalar.sum t.size t.entry

/-- The axes of two tensors laid over each other, last axis first: equal sizes agree and a size
of one fits any other. -/
def overlay? : List Nat → List Nat → Option (List Nat)
  | [], ys => some ys
  | xs, [] => some xs
  | x :: xs, y :: ys =>
      if x = y ∨ y = 1 then (overlay? xs ys).map (x :: ·)
      else if x = 1 then (overlay? xs ys).map (y :: ·)
      else none

/-- The axes of two tensors laid over each other at their last axes. -/
def broadcast? (xs ys : List Nat) : Option (List Nat) :=
  (overlay? xs.reverse ys.reverse).map List.reverse

/-- The position that a tensor under wider axes repeats at a position, both with the last axis
first. -/
def repeatedAt : List Nat → List Nat → Nat → Nat
  | wide :: ws, narrow :: ns, i =>
      (if narrow = 1 then 0 else i % wide) + narrow * repeatedAt ws ns (i / wide)
  | _, _, _ => 0

/-- The position in a tensor of axes `narrow` that stands at a position under axes `wide`. -/
def projected (wide narrow : List Nat) (i : Nat) : Nat := repeatedAt wide.reverse narrow.reverse i

/-- Axes laid over each other: the entry at a position is a value of the positions that meet
there. -/
def overlaid (front back : List Nat) (f : Nat → Nat → γ) : Outcome (Tensor γ) :=
  match broadcast? front back with
  | some dims => .ok (ofFn dims fun i => f (projected dims front i) (projected dims back i))
  | none => .error (.mishap .badTensor)

/-- Two tensors laid over each other, entry by entry. -/
def zipWith [Zero α] [Zero β] (f : α → β → γ) (s : Tensor α) (t : Tensor β) :
    Outcome (Tensor γ) :=
  overlaid s.dims t.dims fun i j => f (s.entry i) (t.entry j)

/-- Sums of values by target position: the `k`-th value goes to position `index k`. -/
def gather [Scalar α] (dims : List Nat) (count : Nat) (index : Nat → Nat) (value : Nat → α) :
    Tensor α :=
  let sums := count.fold (fun k _ acc => acc.modify (index k) (· + value k))
    (Array.replicate (volume dims) 0)
  ofFn dims fun i => sums.getD i 0

/-- The sums of the entries that repeat one entry of a tensor of narrower axes. -/
def reduced [Scalar α] (t : Tensor α) (dims : List Nat) : Tensor α :=
  if t.dims = dims then t else gather dims t.size (projected t.dims dims) t.entry

/-- The tensor with another first axis of size one. -/
def unsqueezed (t : Tensor α) : Tensor α :=
  ⟨1 :: t.dims, t.entries, by simp [t.size_eq]⟩

/-- The tensor without its first axis, if that has size one. -/
def squeezed (t : Tensor α) : Tensor α :=
  match h : t.dims with
  | 1 :: rest => ⟨rest, t.entries, by simp [t.size_eq, h]⟩
  | _ => t

end Tensor

end BlockNet
