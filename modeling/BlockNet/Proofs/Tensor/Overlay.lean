import BlockNet.Proofs.Tensor.Axes

/-! # Axes laid over each other as a least upper bound

Axes fit wider ones if each of them is as wide as the one it meets, or a single place. Of all axes
that several tensors fit, the ones that come of laying them over each other fit all others, and
there are such axes as soon as there are any that all of them fit. -/

namespace BlockNet.Tensor

/-- Axes that can be repeated to others, of which there may be more; both with the last axis
first. -/
inductive Fits : List Nat → List Nat → Prop where
  | nil (ws : List Nat) : Fits [] ws
  | cons {n w : Nat} {ns ws : List Nat} (hn : n = w ∨ n = 1) (h : Fits ns ws) :
      Fits (n :: ns) (w :: ws)

namespace Fits

@[simp]
theorem cons_cons {n w : Nat} {ns ws : List Nat} :
    Fits (n :: ns) (w :: ws) ↔ (n = w ∨ n = 1) ∧ Fits ns ws := by
  constructor
  · intro h
    cases h with
    | cons hn h => exact ⟨hn, h⟩
  · intro h
    exact .cons h.1 h.2

@[simp]
theorem not_cons_nil {n : Nat} {ns : List Nat} : ¬Fits (n :: ns) [] := by
  intro h
  cases h

theorem refl (ws : List Nat) : Fits ws ws := by
  induction ws with
  | nil => exact .nil []
  | cons w ws ih => exact .cons (.inl rfl) ih

theorem antisymm {ns ws : List Nat} (h : Fits ns ws) (h' : Fits ws ns) : ns = ws := by
  induction h with
  | nil ws =>
      cases h' with
      | nil => rfl
  | cons hn h ih =>
      cases h' with
      | cons hw h' =>
          rw [ih h']
          congr 1
          omega

theorem length_le {ns ws : List Nat} (h : Fits ns ws) : ns.length ≤ ws.length := by
  induction h with
  | nil ws => exact Nat.zero_le _
  | cons hn h ih => exact Nat.succ_le_succ ih

/-- An axis of tensors that fit meets an axis. -/
theorem exists_getElem? {ns ws : List Nat} (h : Fits ns ws) {i n : Nat} (hi : ns[i]? = some n) :
    ∃ w, ws[i]? = some w ∧ (n = w ∨ n = 1) := by
  induction h generalizing i with
  | nil ws => cases hi
  | @cons m w ns ws hm h ih =>
      cases i with
      | zero =>
          obtain rfl : m = n := Option.some.inj hi
          exact ⟨w, rfl, hm⟩
      | succ i => exact ih hi

/-- One more axis in front meets the axis that comes next. -/
theorem concat_iff {ns ws : List Nat} {b : Nat} :
    Fits (ns ++ [b]) ws ↔ Fits ns ws ∧ ∃ w, ws[ns.length]? = some w ∧ (b = w ∨ b = 1) := by
  induction ns generalizing ws with
  | nil =>
      cases ws with
      | nil => simp
      | cons w ws => simp [Fits.nil]
  | cons n ns ih =>
      cases ws with
      | nil => simp
      | cons w ws => simp [ih, and_assoc]

/-- An axis in front that no axis meets does not matter. -/
theorem of_concat {ns ws : List Nat} {w : Nat} (h : Fits ns (ws ++ [w]))
    (hlength : ns.length ≤ ws.length) : Fits ns ws := by
  induction ns generalizing ws with
  | nil => exact .nil ws
  | cons n ns ih =>
      cases ws with
      | nil => simp at hlength
      | cons v ws =>
          rw [List.cons_append, cons_cons] at h
          exact .cons h.1 (ih h.2 (by simpa using hlength))

end Fits

/-! ## Two tensors -/

/-- Axes laid over each other fit whatever both of them fit, and nothing else. -/
theorem overlay?_fits {xs ys zs : List Nat} (h : overlay? xs ys = some zs) (ws : List Nat) :
    Fits zs ws ↔ Fits xs ws ∧ Fits ys ws := by
  induction xs generalizing ys zs ws with
  | nil =>
      obtain rfl : ys = zs := Option.some.inj h
      simp [Fits.nil]
  | cons x xs ih =>
      cases ys with
      | nil =>
          obtain rfl : x :: xs = zs := Option.some.inj h
          simp [Fits.nil]
      | cons y ys =>
          -- the wider one of the two first axes is kept
          have hkept : ∃ z rest, zs = z :: rest ∧ overlay? xs ys = some rest ∧
              ∀ w, (z = w ∨ z = 1) ↔ (x = w ∨ x = 1) ∧ (y = w ∨ y = 1) := by
            rw [overlay?] at h
            split at h
            · obtain ⟨rest, hrest, rfl⟩ := Option.map_eq_some_iff.mp h
              exact ⟨x, rest, rfl, hrest, by omega⟩
            · split at h
              · obtain ⟨rest, hrest, rfl⟩ := Option.map_eq_some_iff.mp h
                exact ⟨y, rest, rfl, hrest, by omega⟩
              · cases h
          obtain ⟨z, rest, rfl, hrest, hwide⟩ := hkept
          cases ws with
          | nil => simp
          | cons w ws =>
              rw [Fits.cons_cons, Fits.cons_cons, Fits.cons_cons, ih hrest, hwide]
              exact and_and_and_comm

theorem exists_overlay? {xs ys ws : List Nat} (hxs : Fits xs ws) (hys : Fits ys ws) :
    ∃ zs, overlay? xs ys = some zs := by
  induction hxs generalizing ys with
  | nil ws => exact ⟨ys, rfl⟩
  | @cons x w xs ws hx hxs ih =>
      cases hys with
      | nil => exact ⟨x :: xs, rfl⟩
      | @cons y _ ys _ hy hys =>
          obtain ⟨zs, hzs⟩ := ih hys
          by_cases hxy : x = y ∨ y = 1
          · exact ⟨x :: zs, by simp [overlay?, hxy, hzs]⟩
          · have hone : x = 1 := by omega
            exact ⟨y :: zs, by rw [overlay?, if_neg hxy, if_pos hone, hzs, Option.map_some]⟩

theorem broadcast?_fits {xs ys zs : List Nat} (h : broadcast? xs ys = some zs) (ws : List Nat) :
    Fits zs.reverse ws ↔ Fits xs.reverse ws ∧ Fits ys.reverse ws := by
  obtain ⟨rest, hrest, rfl⟩ := Option.map_eq_some_iff.mp h
  rw [List.reverse_reverse]
  exact overlay?_fits hrest ws

theorem exists_broadcast? {xs ys ws : List Nat} (hxs : Fits xs.reverse ws)
    (hys : Fits ys.reverse ws) : ∃ zs, broadcast? xs ys = some zs := by
  obtain ⟨zs, hzs⟩ := exists_overlay? hxs hys
  exact ⟨zs.reverse, by rw [broadcast?, hzs, Option.map_some]⟩

/-! ## Any number of tensors -/

/-- Axes that fit whatever all of some axes fit, and nothing else. -/
def IsOverlay (parts : List (List Nat)) (dims : List Nat) : Prop :=
  ∀ ws, Fits dims.reverse ws ↔ ∀ part ∈ parts, Fits part.reverse ws

namespace IsOverlay

variable {parts : List (List Nat)} {dims dims' : List Nat}

theorem fits (h : IsOverlay parts dims) {part : List Nat} (hpart : part ∈ parts) :
    Fits part.reverse dims.reverse := (h dims.reverse).mp (.refl _) part hpart

theorem unique (h : IsOverlay parts dims) (h' : IsOverlay parts dims') : dims = dims' := by
  apply List.reverse_injective
  apply Fits.antisymm
  · exact (h _).mpr ((h' _).mp (.refl _))
  · exact (h' _).mpr ((h _).mp (.refl _))

/-- One of the tensors has as many axes as all of them laid over each other. -/
theorem exists_length (h : IsOverlay parts dims) (hne : parts ≠ []) :
    ∃ part ∈ parts, part.length = dims.length := by
  by_contra hnone
  have hother : ∀ part ∈ parts, part.length ≠ dims.length := by
    intro part hpart hlength
    exact hnone ⟨part, hpart, hlength⟩
  cases dims with
  | nil =>
      obtain ⟨part, hpart⟩ := List.exists_mem_of_ne_nil parts hne
      apply hother part hpart
      simpa using (h.fits hpart).length_le
  | cons d dims =>
      -- without the axis in front, all of them would fit still
      have hshort : ∀ part ∈ parts, Fits part.reverse dims.reverse := by
        intro part hpart
        have hfit := h.fits hpart
        rw [List.reverse_cons] at hfit
        apply hfit.of_concat
        have hlength := hfit.length_le
        have hpart := hother part hpart
        simp at hlength hpart ⊢
        omega
      have hlength := ((h dims.reverse).mpr hshort).length_le
      rw [List.length_reverse, List.length_reverse, List.length_cons] at hlength
      omega

end IsOverlay

theorem isOverlay_of_foldlM {front dims : List Nat} {others : List (List Nat)}
    (h : others.foldlM broadcast? front = some dims) : IsOverlay (front :: others) dims := by
  intro ws
  induction others generalizing front with
  | nil =>
      obtain rfl : front = dims := Option.some.inj h
      simp
  | cons other others ih =>
      rw [List.foldlM_cons] at h
      obtain ⟨next, hnext, h⟩ := Option.bind_eq_some_iff.mp h
      rw [ih h, List.forall_mem_cons, List.forall_mem_cons, List.forall_mem_cons,
        broadcast?_fits hnext, and_assoc]

theorem exists_foldlM_broadcast? {front ws : List Nat} {others : List (List Nat)}
    (hfront : Fits front.reverse ws) (hothers : ∀ other ∈ others, Fits other.reverse ws) :
    ∃ dims, others.foldlM broadcast? front = some dims := by
  induction others generalizing front with
  | nil => exact ⟨front, rfl⟩
  | cons other others ih =>
      obtain ⟨hother, hothers⟩ := List.forall_mem_cons.mp hothers
      obtain ⟨next, hnext⟩ := exists_broadcast? hfront hother
      obtain ⟨dims, hdims⟩ := ih ((broadcast?_fits hnext ws).mpr ⟨hfront, hother⟩) hothers
      exact ⟨dims, by rw [List.foldlM_cons, hnext]; exact hdims⟩

/-- Tensors laid over each other one after the other have the narrowest axes that all of them
fit. -/
theorem foldlM_broadcast?_eq_some_iff {front dims : List Nat} {others : List (List Nat)} :
    others.foldlM broadcast? front = some dims ↔ IsOverlay (front :: others) dims := by
  refine ⟨isOverlay_of_foldlM, ?_⟩
  intro h
  obtain ⟨dims', hdims'⟩ := exists_foldlM_broadcast? (h.fits List.mem_cons_self)
    fun other hother => h.fits (List.mem_cons_of_mem front hother)
  rw [hdims', (isOverlay_of_foldlM hdims').unique h]

end BlockNet.Tensor
