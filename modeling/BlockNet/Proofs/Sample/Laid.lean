import BlockNet.Proofs.Sample.Batch

/-! # Samples laid over each other

Tensors that are laid over each other meet sample by sample, if the axis of the batch meets itself. -/

namespace BlockNet.Tensor

open List

variable {α β γ : Type}

/-! ## Repeated positions -/

/-- Axes that can be repeated to others: each is as wide as the other one, or a single place. -/
def Repeats (narrow wide : List Nat) : Prop := Forall₂ (fun n w => n = w ∨ n = 1) narrow wide

theorem Repeats.refl (ws : List Nat) : Repeats ws ws := forall₂_same.mpr fun _ _ => .inl rfl

theorem overlay?_repeats {xs ys ws : List Nat} (h : overlay? xs ys = some ws)
    (hlength : xs.length = ys.length) : Repeats xs ws ∧ Repeats ys ws := by
  induction xs generalizing ys ws with
  | nil =>
      obtain rfl : ys = [] := List.length_eq_zero_iff.mp hlength.symm
      obtain rfl : [] = ws := Option.some.inj h
      exact ⟨.nil, .nil⟩
  | cons x xs ih =>
      cases ys with
      | nil => cases hlength
      | cons y ys =>
          rw [overlay?] at h
          split at h
          · rename_i hxy
            obtain ⟨rest, hrest, rfl⟩ := Option.map_eq_some_iff.mp h
            obtain ⟨hxs, hys⟩ := ih hrest (Nat.succ.inj hlength)
            exact ⟨.cons (.inl rfl) hxs, .cons (hxy.imp_left Eq.symm) hys⟩
          · split at h
            · rename_i hx
              obtain ⟨rest, hrest, rfl⟩ := Option.map_eq_some_iff.mp h
              obtain ⟨hxs, hys⟩ := ih hrest (Nat.succ.inj hlength)
              exact ⟨.cons (.inr hx) hxs, .cons (.inl rfl) hys⟩
            · cases h

theorem broadcast?_repeats {xs ys ws : List Nat} (h : broadcast? xs ys = some ws)
    (hlength : xs.length = ys.length) :
    Repeats xs.reverse ws.reverse ∧ Repeats ys.reverse ws.reverse := by
  obtain ⟨ws, hoverlay, rfl⟩ := Option.map_eq_some_iff.mp h
  rw [List.reverse_reverse]
  exact overlay?_repeats hoverlay (by simpa using hlength)

theorem volume_reverse (dims : List Nat) : volume dims.reverse = volume dims := by
  induction dims with
  | nil => rfl
  | cons n dims ih =>
      rw [List.reverse_cons, volume_append, ih, volume_cons, volume_cons, volume_nil, Nat.mul_one,
        Nat.mul_comm]

theorem Repeats.repeatedAt_lt {ns ws : List Nat} (h : Repeats ns ws) {i : Nat}
    (hi : i < volume ws) : repeatedAt ws ns i < volume ns := by
  induction h generalizing i with
  | nil => exact Nat.one_pos
  | @cons n w ns ws hn h ih =>
      rw [volume_cons] at hi
      have hrest := ih (Nat.div_lt_of_lt_mul hi)
      have hw : 0 < w := Nat.pos_of_mul_pos_right (Nat.zero_lt_of_lt hi)
      have hfirst : (if n = 1 then 0 else i % w) < n := by
        split
        · omega
        · rename_i hne
          rw [hn.resolve_right hne]
          exact Nat.mod_lt i hw
      rw [repeatedAt, volume_cons, Nat.add_comm, Nat.mul_comm n, Nat.mul_comm n]
      exact place_lt hrest hfirst

/-- What stands further on by whole blocks is repeated from the same position. -/
theorem repeatedAt_block (ws ns : List Nat) (i n : Nat) :
    repeatedAt ws ns (i * volume ws + n) = repeatedAt ws ns n := by
  induction ws generalizing ns n with
  | nil => cases ns <;> rfl
  | cons w ws ih =>
      cases ns with
      | nil => rfl
      | cons m ns =>
          have hplace : i * volume (w :: ws) + n = w * (i * volume ws) + n := by
            rw [volume_cons, Nat.mul_left_comm]
          rw [hplace]
          rcases Nat.eq_zero_or_pos w with rfl | hw
          · rw [Nat.zero_mul, Nat.zero_add]
          · rw [repeatedAt, repeatedAt, Nat.mul_add_mod, Nat.mul_add_div hw, ih]

/-- One more axis in front. -/
theorem repeatedAt_concat {ws ns : List Nat} (hlength : ws.length = ns.length) (b b' i : Nat) :
    repeatedAt (ws ++ [b]) (ns ++ [b']) i =
      repeatedAt ws ns i + volume ns * if b' = 1 then 0 else i / volume ws % b := by
  induction ws generalizing ns i with
  | nil =>
      obtain rfl : ns = [] := List.length_eq_zero_iff.mp hlength.symm
      simp [repeatedAt]
  | cons w ws ih =>
      cases ns with
      | nil => cases hlength
      | cons n ns =>
          rw [List.cons_append, List.cons_append, repeatedAt, repeatedAt,
            ih (Nat.succ.inj hlength), Nat.mul_add, Nat.add_assoc, volume_cons, volume_cons,
            Nat.mul_assoc, Nat.div_div_eq_div_mul]

/-! ## Samples -/

variable {b i : Nat}

/-- A position of a sample is repeated from the same sample. -/
theorem projected_sample (hi : i < b) {acc dims : List Nat} (hlength : dims.length = acc.length)
    {n : Nat} (hn : n < volume dims) :
    projected (b :: dims) (b :: acc) (i * volume dims + n) =
      i * volume acc + repeatedAt dims.reverse acc.reverse n := by
  have hfirst : (if b = 1 then 0 else i % b) = i := by
    split
    · omega
    · exact Nat.mod_eq_of_lt hi
  rw [projected, List.reverse_cons, List.reverse_cons, repeatedAt_concat (by simpa using hlength),
    volume_reverse, volume_reverse, div_place hn, hfirst, ← volume_reverse dims, repeatedAt_block,
    Nat.add_comm, Nat.mul_comm]

theorem Alone.projected [Zero α] (hi : i < b) {acc dims : List Nat} {x y : Tensor α}
    (h : Alone b i acc x y) (hrepeats : Repeats acc.reverse dims.reverse) {n : Nat}
    (hn : n < volume dims) :
    y.entry (projected (1 :: dims) (1 :: acc) n) =
      x.entry (projected (b :: dims) (b :: acc) (i * volume dims + n)) := by
  have hlength : dims.length = acc.length := by simpa using hrepeats.length_eq.symm
  have hlt := hrepeats.repeatedAt_lt ((volume_reverse dims).symm ▸ hn)
  have hlone := projected_sample Nat.one_pos hlength hn
  rw [Nat.zero_mul, Nat.zero_add, Nat.zero_mul, Nat.zero_add] at hlone
  rw [projected_sample hi hlength hn, hlone, h.entry (volume_reverse acc ▸ hlt)]

variable [Zero α] [Zero β]

/-- Tensors of as many axes, laid over each other. -/
theorem Alone.zipWith (hi : i < b) {acc other : List Nat} {x y : Tensor α} {t u : Tensor β}
    (h : Alone b i acc x y) (htu : Alone b i other t u) (hlength : acc.length = other.length)
    (f : α → β → γ) :
    Both (fun p q => ∃ s, s.length = acc.length ∧ Alone b i s p q) (zipWith f x t)
      (zipWith f y u) := by
  rw [Tensor.zipWith, Tensor.zipWith, overlaid, overlaid, h.dims, h.lone, htu.dims, htu.lone,
    broadcast?_cons b hlength, broadcast?_cons 1 hlength]
  cases hdims : broadcast? acc other with
  | none => exact .left _ _
  | some dims =>
      obtain ⟨hacc, hother⟩ := broadcast?_repeats hdims hlength
      refine .ok ⟨dims, by simpa using hacc.length_eq.symm, ?_⟩
      refine .ofFn hi fun n hn => ?_
      rw [h.projected hi hacc hn, htu.projected hi hother hn]

/-- A factor for every channel. -/
theorem Alone.zipWith_last (hi : i < b) {front : List Nat} {c : Nat} {x y : Tensor α}
    {t : Tensor β} (h : Alone b i (front ++ [c]) x y) (ht : t.dims = [c]) (f : α → β → γ) :
    Both (Alone b i (front ++ [c])) (Tensor.zipWith f x t) (Tensor.zipWith f y t) := by
  have hbroadcast : ∀ m, broadcast? (m :: (front ++ [c])) [c] = some (m :: (front ++ [c])) :=
    fun m => broadcast?_last (m :: front) c
  rw [Tensor.zipWith, Tensor.zipWith, overlaid, overlaid, h.dims, h.lone, ht, hbroadcast,
    hbroadcast]
  have hchannel : ∀ m n, Tensor.projected (m :: (front ++ [c])) [c] n =
      if c = 1 then 0 else n % c := by
    intro m n
    simp [Tensor.projected, repeatedAt]
  refine .ok (.ofFn hi fun n hn => ?_)
  have hplace : i * volume (front ++ [c]) + n = c * (i * volume front) + n := by
    rw [volume_concat, ← Nat.mul_assoc, Nat.mul_comm]
  rw [h.projected hi (.refl _) hn, hchannel, hchannel, hplace, Nat.mul_add_mod]

end BlockNet.Tensor
