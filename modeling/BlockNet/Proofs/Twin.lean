import BlockNet.Proofs.Outcome
import Mathlib.Data.List.Forall2

/-! # Computations side by side

Two computations are twins if both fail or both succeed, with related faults or related results. What
draws random numbers is compared from any two streams. -/

namespace BlockNet

section

variable {ε ε' β γ δ ζ : Type} {E : ε → ε' → Prop} {R : β → γ → Prop} {S : δ → ζ → Prop}

/-- Both computations fail, or both succeed. -/
inductive Twin (E : ε → ε' → Prop) (R : β → γ → Prop) : Except ε β → Except ε' γ → Prop
  | error {e : ε} {e' : ε'} (h : E e e') : Twin E R (.error e) (.error e')
  | ok {b : β} {c : γ} (h : R b c) : Twin E R (.ok b) (.ok c)

namespace Twin

theorem refl (x : Except ε β) : Twin Eq Eq x x := by
  cases x with
  | error e => exact .error rfl
  | ok b => exact .ok rfl

theorem bind {x : Except ε β} {y : Except ε' γ} {f : β → Except ε δ} {g : γ → Except ε' ζ}
    (h : Twin E R x y) (hf : ∀ b c, R b c → Twin E S (f b) (g c)) :
    Twin E S (x >>= f) (y >>= g) := by
  cases h with
  | error h => exact .error h
  | ok h => exact hf _ _ h

theorem mono {S : β → γ → Prop} {x : Except ε β} {y : Except ε' γ} (h : Twin E R x y)
    (hR : ∀ b c, R b c → S b c) : Twin E S x y := by
  cases h with
  | error h => exact .error h
  | ok h => exact .ok (hR _ _ h)

/-- Folds over the same members, each step of which goes on alike. -/
theorem foldlM {α : Type} {f : β → α → Except ε β} {g : γ → α → Except ε' γ} {xs : List α}
    (hstep : ∀ x ∈ xs, ∀ b c, R b c → Twin E R (f b x) (g c x)) {b : β} {c : γ} (h : R b c) :
    Twin E R (xs.foldlM f b) (xs.foldlM g c) := by
  induction xs generalizing b c with
  | nil => exact .ok h
  | cons x xs ih =>
      rw [List.foldlM_cons, List.foldlM_cons]
      refine (hstep x List.mem_cons_self b c h).bind fun b' c' h' => ?_
      exact ih (fun y hy => hstep y (List.mem_cons_of_mem x hy)) h'

theorem eq_ok {x : Except ε β} {y : Except ε' γ} (h : Twin E R x y) {b : β} (hx : x = .ok b) :
    ∃ c, y = .ok c ∧ R b c := by
  cases h with
  | error => cases hx
  | ok h =>
      obtain rfl := Except.ok.inj hx
      exact ⟨_, rfl, h⟩

/-- A twin whose results are told from those of the other one. -/
theorem eq_map {x : Except ε β} {y : Except ε γ} {f : β → γ}
    (h : Twin Eq (fun b c => c = f b) x y) : y = x.map f := by
  cases h with
  | error h => rw [h, Except.map]
  | ok h => rw [h, Except.map]

/-- Each succeeds where the other one does. -/
theorem of_follow {x : Except ε β} {y : Except ε' γ} (hE : ∀ e e', E e e')
    (h : ∀ b, x = .ok b → ∃ c, y = .ok c ∧ R b c) (h' : ∀ c, y = .ok c → ∃ b, x = .ok b) :
    Twin E R x y := by
  cases x with
  | ok b =>
      obtain ⟨c, rfl, hR⟩ := h b rfl
      exact .ok hR
  | error e =>
      cases y with
      | error e' => exact .error (hE e e')
      | ok c =>
          obtain ⟨b, hb⟩ := h' c rfl
          cases hb

end Twin

/-! ## Results where there are any -/

/-- Where both computations succeed, their results are related. -/
def Both (R : β → γ → Prop) (x : Except ε β) (y : Except ε' γ) : Prop :=
  ∀ b c, x = .ok b → y = .ok c → R b c

namespace Both

theorem ok {b : β} {c : γ} (h : R b c) : Both R (.ok b : Except ε β) (.ok c : Except ε' γ) := by
  rintro _ _ ⟨⟩ ⟨⟩
  exact h

theorem left (e : ε) (y : Except ε' γ) : Both R (.error e) y := by
  rintro _ _ ⟨⟩

theorem right (x : Except ε β) (e : ε') : Both R x (.error e) := by
  rintro _ _ - ⟨⟩

theorem bind {x : Except ε β} {y : Except ε' γ} {f : β → Except ε δ} {g : γ → Except ε' ζ}
    (h : Both R x y) (hf : ∀ b c, R b c → Both S (f b) (g c)) : Both S (x >>= f) (y >>= g) := by
  intro d e hd he
  obtain ⟨b, hb, hd⟩ := bind_eq_ok.mp hd
  obtain ⟨c, hc, he⟩ := bind_eq_ok.mp he
  exact hf b c (h b c hb hc) d e hd he

theorem map {x : Except ε β} {y : Except ε' γ} {f : β → δ} {g : γ → ζ} (h : Both R x y)
    (hf : ∀ b c, R b c → S (f b) (g c)) : Both S (x.map f) (y.map g) := by
  intro d e hd he
  obtain ⟨b, hb, rfl⟩ := map_eq_ok.mp hd
  obtain ⟨c, hc, rfl⟩ := map_eq_ok.mp he
  exact hf b c (h b c hb hc)

/-- The same computation first. -/
theorem same_bind {x : Except ε β} {f : β → Except ε δ} {g : β → Except ε ζ}
    (hf : ∀ b, x = .ok b → Both S (f b) (g b)) : Both S (x >>= f) (x >>= g) := by
  intro d e hd he
  obtain ⟨b, hb, hd⟩ := bind_eq_ok.mp hd
  obtain ⟨c, hc, he⟩ := bind_eq_ok.mp he
  obtain rfl := Except.ok.inj (hb.symm.trans hc)
  exact hf b hb d e hd he

theorem mono {S : β → γ → Prop} {x : Except ε β} {y : Except ε' γ} (h : Both R x y)
    (hR : ∀ b c, R b c → S b c) : Both S x y :=
  fun b c hb hc => hR b c (h b c hb hc)

/-- Members one by one. -/
theorem mapM {α : Type} {f : α → Except ε β} {g : α → Except ε' γ} {xs : List α}
    (h : ∀ x ∈ xs, Both R (f x) (g x)) : Both (List.Forall₂ R) (xs.mapM f) (xs.mapM g) := by
  induction xs with
  | nil => exact ok .nil
  | cons x xs ih =>
      obtain ⟨hx, hxs⟩ := List.forall_mem_cons.mp h
      rw [List.mapM_cons, List.mapM_cons]
      exact hx.bind fun _ _ hbc => (ih hxs).bind fun _ _ hrest => ok (.cons hbc hrest)

end Both

end

/-! ## What draws -/

section

variable {β γ δ ζ : Type} {R : β → γ → Prop} {S : δ → ζ → Prop}

/-- From any two streams both computations come to the same fault or to related results. -/
def Alike (R : β → γ → Prop) (x : Draws β) (y : Draws γ) : Prop :=
  ∀ g g', Twin Eq R (x.run g).1 (y.run g').1

namespace Alike

theorem pure {b : β} {c : γ} (h : R b c) : Alike R (Pure.pure b) (Pure.pure c) :=
  fun _ _ => .ok h

theorem lift (x : Outcome β) : Alike Eq (liftM x : Draws β) (liftM x) :=
  fun _ _ => .refl x

theorem bind {x : Draws β} {y : Draws γ} {f : β → Draws δ} {f' : γ → Draws ζ} (h : Alike R x y)
    (hf : ∀ b c, R b c → Alike S (f b) (f' c)) : Alike S (x >>= f) (y >>= f') := by
  intro g g'
  have hxy := h g g'
  rcases hx : x.run g with ⟨_ | b, g₁⟩ <;> rcases hy : y.run g' with ⟨_ | c, g₁'⟩ <;>
    rw [hx, hy] at hxy <;> cases hxy
  · rename_i h
    rw [run_bind_error hx, run_bind_error hy]
    exact .error h
  · rename_i h
    rw [run_bind_ok hx, run_bind_ok hy]
    exact hf b c h g₁ g₁'

/-- The same computation first, none of which draws. -/
theorem lift_bind {x : Outcome β} {f : β → Draws δ} {f' : β → Draws ζ}
    (hf : ∀ b, Alike S (f b) (f' b)) : Alike S ((liftM x : Draws β) >>= f) (liftM x >>= f') :=
  (lift x).bind fun _ _ h => h ▸ hf _

theorem mapM {α : Type} {f : α → Draws β} {f' : α → Draws γ} {xs : List α}
    (hf : ∀ a ∈ xs, Alike R (f a) (f' a)) : Alike (List.Forall₂ R) (xs.mapM f) (xs.mapM f') := by
  induction xs with
  | nil => exact pure .nil
  | cons x xs ih =>
      obtain ⟨hx, hxs⟩ := List.forall_mem_cons.mp hf
      rw [List.mapM_cons, List.mapM_cons]
      exact hx.bind fun _ _ h => (ih hxs).bind fun _ _ hs => pure (.cons h hs)

end Alike

/-- From any two streams, where both computations give results, these are related. -/
def Agree (R : β → γ → Prop) (x : Draws β) (y : Draws γ) : Prop :=
  ∀ g g', Both R (x.run g).1 (y.run g').1

namespace Agree

theorem pure {b : β} {c : γ} (h : R b c) : Agree R (Pure.pure b) (Pure.pure c) :=
  fun _ _ => .ok h

theorem lift {x : Outcome β} {y : Outcome γ} (h : Both R x y) :
    Agree R (liftM x : Draws β) (liftM y) :=
  fun _ _ => h

theorem bind {x : Draws β} {y : Draws γ} {f : β → Draws δ} {f' : γ → Draws ζ} (h : Agree R x y)
    (hf : ∀ b c, R b c → Agree S (f b) (f' c)) : Agree S (x >>= f) (y >>= f') := by
  intro g g'
  have hxy := h g g'
  rcases hx : x.run g with ⟨_ | b, g₁⟩
  · rw [run_bind_error hx]
    exact .left _ _
  · rcases hy : y.run g' with ⟨_ | c, g₁'⟩
    · rw [run_bind_error hy]
      exact .right _ _
    · rw [hx, hy] at hxy
      rw [run_bind_ok hx, run_bind_ok hy]
      exact hf b c (hxy b c rfl rfl) g₁ g₁'

theorem mono {S : β → γ → Prop} {x : Draws β} {y : Draws γ} (h : Agree R x y)
    (hR : ∀ b c, R b c → S b c) : Agree S x y :=
  fun g g' => (h g g').mono hR

/-- The same computation first, none of which draws. -/
theorem same_bind {x : Outcome β} {f : β → Draws δ} {f' : β → Draws ζ}
    (hf : ∀ b, x = .ok b → Agree S (f b) (f' b)) :
    Agree S ((liftM x : Draws β) >>= f) (liftM x >>= f') := by
  cases x with
  | error e => exact fun _ _ => .left _ _
  | ok b => exact fun g g' => hf b rfl g g'

end Agree

end

end BlockNet
