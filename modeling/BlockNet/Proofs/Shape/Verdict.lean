import BlockNet.Shape.Compatibility

/-! # Verdicts on shapes

Two shapes of one rank fit each other if no place has different sizes in both, and the verdict names the
first place that has. Shapes of different ranks fit only later, if at all. An axis that is opened never
makes two shapes fit worse. -/

namespace BlockNet

/-- Lists of axes have different sizes at a place. An open axis has no size. -/
def DifferAt (source target : List Dim) (i : Nat) : Prop :=
  ∃ m n, source[i]? = some (.size m) ∧ target[i]? = some (.size n) ∧ m ≠ n

section DifferAt

variable {source target : List Dim} {d e : Dim} {i k : Nat}

@[simp]
theorem not_differAt_nil : ¬DifferAt [] target i := by simp [DifferAt]

@[simp]
theorem not_differAt_nil_right : ¬DifferAt source [] i := by simp [DifferAt]

@[simp]
theorem differAt_cons_zero :
    DifferAt (d :: source) (e :: target) 0 ↔ ∃ m n, d = .size m ∧ e = .size n ∧ m ≠ n := by
  simp [DifferAt]

@[simp]
theorem differAt_cons_succ :
    DifferAt (d :: source) (e :: target) (i + 1) ↔ DifferAt source target i := by
  simp [DifferAt]

theorem DifferAt.symm (h : DifferAt source target i) : DifferAt target source i := by
  obtain ⟨m, n, hm, hn, hne⟩ := h
  exact ⟨n, m, hn, hm, hne.symm⟩

/-- An axis that is opened differs from nothing. -/
theorem DifferAt.of_set (h : DifferAt (source.set k Dim.unknown) target i) :
    DifferAt source target i := by
  obtain ⟨m, n, hm, hn, hne⟩ := h
  rw [List.getElem?_set] at hm
  split at hm
  · split at hm <;> cases hm
  · exact ⟨m, n, hm, hn, hne⟩

end DifferAt

/-- The first place at which two lists of axes have different sizes, and these sizes. -/
structure FirstDiffer (source target : List Dim) (i m n : Nat) : Prop where
  source_size : source[i]? = some (.size m)
  target_size : target[i]? = some (.size n)
  ne : m ≠ n
  least : ∀ j < i, ¬DifferAt source target j

namespace FirstDiffer

variable {source target : List Dim} {i m n : Nat}

theorem differAt (h : FirstDiffer source target i m n) : DifferAt source target i :=
  ⟨m, n, h.source_size, h.target_size, h.ne⟩

theorem symm (h : FirstDiffer source target i m n) : FirstDiffer target source i n m :=
  ⟨h.target_size, h.source_size, h.ne.symm, fun j hj hdiffer => h.least j hj hdiffer.symm⟩

theorem unique {i' m' n' : Nat} (h : FirstDiffer source target i m n)
    (h' : FirstDiffer source target i' m' n') : i = i' := by
  rcases Nat.lt_trichotomy i i' with hlt | heq | hlt
  · exact absurd h.differAt (h'.least i hlt)
  · exact heq
  · exact absurd h'.differAt (h.least i' hlt)

theorem cons {d e : Dim} (h : FirstDiffer source target i m n)
    (hfirst : ¬DifferAt (d :: source) (e :: target) 0) :
    FirstDiffer (d :: source) (e :: target) (i + 1) m n := by
  refine ⟨h.source_size, h.target_size, h.ne, fun j hj => ?_⟩
  cases j with
  | zero => exact hfirst
  | succ j =>
      rw [differAt_cons_succ]
      exact h.least j (Nat.lt_of_succ_lt_succ hj)

end FirstDiffer

/-- The comparison goes on from place to place as long as no sizes differ. -/
theorem compareDims_cons (d e : Dim) (i : Nat) (source target : List Dim) :
    compareDims i (d :: source) (e :: target) = compareDims (i + 1) source target ∧
        ¬DifferAt (d :: source) (e :: target) 0 ∨
      ∃ m n, compareDims i (d :: source) (e :: target) = .sizesDiffer i m n ∧
        FirstDiffer (d :: source) (e :: target) 0 m n := by
  cases d with
  | dynamic a => exact .inl ⟨rfl, by simp⟩
  | size m =>
      cases e with
      | dynamic b => exact .inl ⟨rfl, by simp⟩
      | size n =>
          by_cases h : m = n
          · exact .inl ⟨by rw [compareDims, if_pos h], by simp [h]⟩
          · exact .inr ⟨m, n, by rw [compareDims, if_neg h], rfl, rfl, h, by simp⟩

/-- The comparison finds no place of different sizes, or the first one. -/
theorem compareDims_cases (i : Nat) (source target : List Dim) :
    compareDims i source target = .fits ∧ (∀ k, ¬DifferAt source target k) ∨
      ∃ k m n, compareDims i source target = .sizesDiffer (i + k) m n ∧
        FirstDiffer source target k m n := by
  induction source generalizing i target with
  | nil => exact .inl ⟨by simp [compareDims], by simp⟩
  | cons d source ih =>
      cases target with
      | nil => exact .inl ⟨by simp [compareDims], by simp⟩
      | cons e target =>
          rcases compareDims_cons d e i source target with ⟨hstep, hfirst⟩ | ⟨m, n, hstep, hdiffer⟩
          · rw [hstep]
            rcases ih (i + 1) target with ⟨hfits, hnone⟩ | ⟨k, m, n, hfound, hdiffer⟩
            · refine .inl ⟨hfits, fun k => ?_⟩
              cases k with
              | zero => exact hfirst
              | succ k =>
                  rw [differAt_cons_succ]
                  exact hnone k
            · refine .inr ⟨k + 1, m, n, ?_, hdiffer.cons hfirst⟩
              rw [hfound, Nat.add_right_comm, Nat.add_assoc]
          · exact .inr ⟨0, m, n, hstep, hdiffer⟩

namespace TensorShape

/-- No place has different sizes in two shapes of one rank. -/
def Matches (source target : TensorShape) : Prop :=
  source.rank = target.rank ∧ ∀ i, ¬DifferAt source.dims target.dims i

/-- Shapes of different ranks, both with axes, of which the second has one that nothing is known
about. -/
def PutOff (source target : TensorShape) : Prop :=
  source.rank ≠ target.rank ∧ source.rank ≠ 0 ∧ target.rank ≠ 0 ∧ Dim.unknown ∈ target.dims

/-- What each verdict says about two shapes. -/
inductive Judged (source target : TensorShape) : ShapeVerdict → Prop
  | fits (h : source.Matches target) : Judged source target .fits
  | fitsLater (h : source.PutOff target) : Judged source target .fitsLater
  | ranksDiffer (hrank : source.rank ≠ target.rank) (h : ¬source.PutOff target) :
      Judged source target (.ranksDiffer source.rank target.rank)
  | sizesDiffer (hrank : source.rank = target.rank) {i m n : Nat}
      (h : FirstDiffer source.dims target.dims i m n) :
      Judged source target (.sizesDiffer i m n)

variable {source target : TensorShape} {v w : ShapeVerdict}

theorem hasUnknown_iff {s : TensorShape} : s.hasUnknown = true ↔ Dim.unknown ∈ s.dims := by
  simp [hasUnknown]

theorem judged (source target : TensorShape) : Judged source target (source.verdict target) := by
  unfold verdict
  split
  · rename_i hrank
    rcases compareDims_cases 0 source.dims target.dims with ⟨hfits, hnone⟩ | ⟨i, m, n, hfound, h⟩
    · rw [hfits]
      exact .fits ⟨hrank, hnone⟩
    · rw [hfound, Nat.zero_add]
      exact .sizesDiffer hrank h
  · rename_i hrank
    split
    · rename_i hlater
      exact .fitsLater ⟨hrank, hlater.1, hlater.2.1, hasUnknown_iff.mp hlater.2.2⟩
    · rename_i hlater
      refine .ranksDiffer hrank fun h => hlater ?_
      exact ⟨h.2.1, h.2.2.1, hasUnknown_iff.mpr h.2.2.2⟩

namespace Judged

theorem ok_iff (h : Judged source target v) :
    v.ok = true ↔ source.Matches target ∨ source.PutOff target := by
  cases h with
  | fits h => exact iff_of_true rfl (.inl h)
  | fitsLater h => exact iff_of_true rfl (.inr h)
  | ranksDiffer hrank h =>
      refine iff_of_false Bool.false_ne_true fun hfits => ?_
      exact hfits.elim (fun hmatch => hrank hmatch.1) h
  | sizesDiffer hrank h =>
      refine iff_of_false Bool.false_ne_true fun hfits => ?_
      exact hfits.elim (fun hmatch => hmatch.2 _ h.differAt) fun hlater => hlater.1 hrank

theorem isSome_warning?_iff (h : Judged source target v) :
    v.warning?.isSome = true ↔ source.PutOff target := by
  cases h with
  | fits h => exact iff_of_false Bool.false_ne_true fun hlater => hlater.1 h.1
  | fitsLater h => exact iff_of_true rfl h
  | ranksDiffer hrank h => exact iff_of_false Bool.false_ne_true h
  | sizesDiffer hrank h => exact iff_of_false Bool.false_ne_true fun hlater => hlater.1 hrank

theorem refused_ranks (h : Judged source target v) (hok : v.ok = false)
    (hrank : source.rank ≠ target.rank) : v.code? = some .rankMismatch ∧ v.index? = none := by
  cases h with
  | fits h => cases hok
  | fitsLater h => cases hok
  | ranksDiffer _ h => exact ⟨rfl, rfl⟩
  | sizesDiffer heq h => exact absurd heq hrank

theorem refused_sizes (h : Judged source target v) (hok : v.ok = false)
    (hrank : source.rank = target.rank) : v.code? = some .dimensionMismatch ∧
      ∃ i, v.index? = some i ∧ DifferAt source.dims target.dims i ∧
        ∀ j < i, ¬DifferAt source.dims target.dims j := by
  cases h with
  | fits h => cases hok
  | fitsLater h => cases hok
  | ranksDiffer hne h => exact absurd hrank hne
  | sizesDiffer _ h => exact ⟨rfl, _, rfl, h.differAt, h.least⟩

/-- But for the sizes that a message names, shapes of one rank are judged the same both ways. -/
theorem symm (hv : Judged source target v) (hw : Judged target source w)
    (hrank : source.rank = target.rank) :
    v.ok = w.ok ∧ v.code? = w.code? ∧ v.index? = w.index? ∧ v.warning? = w.warning? := by
  cases hv with
  | fits h =>
      cases hw with
      | fits h' => exact ⟨rfl, rfl, rfl, rfl⟩
      | fitsLater h' => exact absurd hrank.symm h'.1
      | ranksDiffer hne h' => exact absurd hrank.symm hne
      | sizesDiffer _ h' => exact absurd h'.differAt.symm (h.2 _)
  | fitsLater h => exact absurd hrank h.1
  | ranksDiffer hne h => exact absurd hrank hne
  | sizesDiffer _ h =>
      cases hw with
      | fits h' => exact absurd h.differAt.symm (h'.2 _)
      | fitsLater h' => exact absurd hrank.symm h'.1
      | ranksDiffer hne h' => exact absurd hrank.symm hne
      | sizesDiffer _ h' =>
          obtain rfl := h.unique h'.symm
          exact ⟨rfl, rfl, rfl, rfl⟩

end Judged

/-! ## Opening an axis -/

/-- The shape with nothing known about one of its axes. -/
def opened (s : TensorShape) (i : Nat) : TensorShape := { s with dims := s.dims.set i Dim.unknown }

@[simp]
theorem rank_opened (s : TensorShape) (i : Nat) : (s.opened i).rank = s.rank :=
  List.length_set

theorem mem_opened {s : TensorShape} (h : Dim.unknown ∈ s.dims) (i : Nat) :
    Dim.unknown ∈ (s.opened i).dims := by
  obtain ⟨k, hk⟩ := List.getElem?_of_mem h
  refine List.mem_of_getElem? (i := k) ?_
  rw [opened, List.getElem?_set]
  split
  · rename_i heq
    have hlt : k < s.dims.length := (List.getElem?_eq_some_iff.mp hk).1
    rw [if_pos (heq ▸ hlt)]
  · exact hk

/-- What is accepted stays so when an axis of the producing shape is opened. -/
theorem ok_opened_source (h : source.Matches target ∨ source.PutOff target) (i : Nat) :
    (source.opened i).Matches target ∨ (source.opened i).PutOff target := by
  rcases h with ⟨hrank, hnone⟩ | hlater
  · exact .inl ⟨(rank_opened source i).trans hrank, fun k hdiffer => hnone k hdiffer.of_set⟩
  · refine .inr ?_
    rw [PutOff, rank_opened]
    exact hlater

theorem ok_opened_target (h : source.Matches target ∨ source.PutOff target) (i : Nat) :
    source.Matches (target.opened i) ∨ source.PutOff (target.opened i) := by
  rcases h with ⟨hrank, hnone⟩ | ⟨hne, hsource, htarget, hunknown⟩
  · refine .inl ⟨hrank.trans (rank_opened target i).symm, fun k hdiffer => ?_⟩
    exact hnone k hdiffer.symm.of_set.symm
  · refine .inr ?_
    rw [PutOff, rank_opened]
    exact ⟨hne, hsource, htarget, mem_opened hunknown i⟩

end TensorShape

end BlockNet
