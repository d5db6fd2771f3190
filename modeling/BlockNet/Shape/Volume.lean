/-! # Volumes

How many positions axes span, and how long blocks are side by side. -/

namespace BlockNet

/-- The number of positions that axes of some sizes span; no axes span a single one. -/
def volume (dims : List Nat) : Nat := dims.foldr (· * ·) 1

@[simp]
theorem volume_nil : volume [] = 1 := rfl

@[simp]
theorem volume_cons (n : Nat) (dims : List Nat) : volume (n :: dims) = n * volume dims := rfl

theorem volume_append (front back : List Nat) :
    volume (front ++ back) = volume front * volume back := by
  induction front with
  | nil => simp
  | cons n front ih => simp [ih, Nat.mul_assoc]

/-- The size of blocks side by side. -/
def combined (sizes : List Nat) : Nat := sizes.foldr (· + ·) 0

@[simp]
theorem combined_nil : combined [] = 0 := rfl

@[simp]
theorem combined_cons (n : Nat) (sizes : List Nat) : combined (n :: sizes) = n + combined sizes :=
  rfl

end BlockNet
