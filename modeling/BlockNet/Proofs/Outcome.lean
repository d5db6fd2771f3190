import BlockNet.Tensor.Generator
import BlockNet.Value.Reading
import Mathlib.Data.List.Forall2

/-! # Computations that give a result

What it takes for a chain of computations that can fail to give a result. -/

namespace BlockNet

variable {ε α β : Type}

theorem ok_bind (a : α) (f : α → Except ε β) : (Except.ok a >>= f) = f a := rfl

theorem bind_eq_ok {x : Except ε α} {f : α → Except ε β} {b : β} :
    x >>= f = .ok b ↔ ∃ a, x = .ok a ∧ f a = .ok b := by
  cases x with
  | error e => simp [bind, Except.bind]
  | ok a => simp [bind, Except.bind]

theorem bind_eq_error {x : Except ε α} {f : α → Except ε β} {e : ε} :
    x >>= f = .error e ↔ x = .error e ∨ ∃ a, x = .ok a ∧ f a = .error e := by
  cases x with
  | error e' => simp [bind, Except.bind]
  | ok a => simp [bind, Except.bind]

theorem map_eq_ok {x : Except ε α} {f : α → β} {b : β} :
    x.map f = .ok b ↔ ∃ a, x = .ok a ∧ f a = b := by
  cases x with
  | error e => simp [Except.map]
  | ok a => simp [Except.map]

theorem toOption_eq_some {x : Except ε α} {a : α} : x.toOption = some a ↔ x = .ok a := by
  cases x with
  | error e => simp [Except.toOption]
  | ok b => simp [Except.toOption]

theorem demand_eq_ok {b : Bool} {rule : String} {u : Unit} :
    demand b rule = .ok u ↔ b = true := by
  cases b <;> simp [demand]

theorem orMishap_eq_ok {m : Mishap} {x : Option α} {a : α} : orMishap m x = .ok a ↔ x = some a := by
  cases x <;> simp [orMishap, mishap]

/-- A fold that gives a result keeps what every step keeps. The property may speak of the members
gone through. -/
theorem foldlM_induction {f : β → α → Except ε β} {P : List α → β → Prop}
    (hstep : ∀ done x a b, P done a → f a x = .ok b → P (done ++ [x]) b)
    {xs : List α} {a b : β} (hstart : P [] a) (h : xs.foldlM f a = .ok b) : P xs b := by
  have hrest : ∀ xs done a, P done a → xs.foldlM f a = .ok b → P (done ++ xs) b := by
    intro xs
    induction xs with
    | nil =>
        intro done a ha h
        obtain rfl : a = b := Except.ok.inj h
        rwa [List.append_nil]
    | cons x xs ih =>
        intro done a ha h
        rw [List.foldlM_cons, bind_eq_ok] at h
        obtain ⟨c, hc, hrest⟩ := h
        have hfinal := ih (done ++ [x]) c (hstep done x a c ha hc) hrest
        rwa [List.append_assoc] at hfinal
  exact hrest xs [] a hstart h

/-- A list is gone through to the end when each of its members gives a result. -/
theorem mapM_eq_ok {f : α → Except ε β} {xs : List α} {ys : List β} :
    xs.mapM f = .ok ys ↔ List.Forall₂ (fun x y => f x = .ok y) xs ys := by
  induction xs generalizing ys with
  | nil =>
      rw [List.mapM_nil, List.forall₂_nil_left_iff]
      exact ⟨fun h => (Except.ok.inj h).symm, fun h => h ▸ rfl⟩
  | cons x xs ih =>
      rw [List.mapM_cons, bind_eq_ok, List.forall₂_cons_left_iff]
      refine exists_congr fun y => ?_
      rw [bind_eq_ok]
      constructor
      · rintro ⟨hy, rest, hrest, h⟩
        exact ⟨rest, hy, ih.mp hrest, (Except.ok.inj h).symm⟩
      · rintro ⟨rest, hy, hrest, rfl⟩
        exact ⟨hy, rest, ih.mpr hrest, rfl⟩

theorem exists_mapM_eq_ok {f : α → Except ε β} {xs : List α} (h : ∀ x ∈ xs, ∃ y, f x = .ok y) :
    ∃ ys, xs.mapM f = .ok ys := by
  induction xs with
  | nil => exact ⟨[], rfl⟩
  | cons x xs ih =>
      obtain ⟨⟨y, hy⟩, hxs⟩ := List.forall_mem_cons.mp h
      obtain ⟨ys, hys⟩ := ih hxs
      exact ⟨y :: ys, by rw [List.mapM_cons, hy, ok_bind, hys]; rfl⟩

theorem exists_mem_of_mapM {f : α → Except ε β} {xs : List α} {ys : List β} {x : α}
    (h : xs.mapM f = .ok ys) (hx : x ∈ xs) : ∃ y ∈ ys, f x = .ok y := by
  have hall := mapM_eq_ok.mp h
  clear h
  induction hall with
  | nil => cases hx
  | cons hy _ ih =>
      rcases List.mem_cons.mp hx with rfl | hx
      · exact ⟨_, List.mem_cons_self, hy⟩
      · obtain ⟨y, hmem, hy⟩ := ih hx
        exact ⟨y, List.mem_cons_of_mem _ hmem, hy⟩

theorem exists_mapM_eq_ok_iff {f : α → Except ε β} {xs : List α} :
    (∃ ys, xs.mapM f = .ok ys) ↔ ∀ x ∈ xs, ∃ y, f x = .ok y := by
  refine ⟨?_, exists_mapM_eq_ok⟩
  rintro ⟨ys, h⟩ x hx
  obtain ⟨y, -, hy⟩ := exists_mem_of_mapM h hx
  exact ⟨y, hy⟩

theorem exists_of_mem_mapM {f : α → Except ε β} {xs : List α} {ys : List β} {y : β}
    (h : xs.mapM f = .ok ys) (hy : y ∈ ys) : ∃ x ∈ xs, f x = .ok y := by
  have hall := mapM_eq_ok.mp h
  clear h
  induction hall with
  | nil => cases hy
  | cons hx _ ih =>
      rcases List.mem_cons.mp hy with rfl | hy
      · exact ⟨_, List.mem_cons_self, hx⟩
      · obtain ⟨x, hmem, hx⟩ := ih hy
        exact ⟨x, List.mem_cons_of_mem _ hmem, hx⟩

theorem mapM_congr {f f' : α → Except ε β} {xs : List α} (h : ∀ x ∈ xs, f x = f' x) :
    xs.mapM f = xs.mapM f' := by
  induction xs with
  | nil => rfl
  | cons x xs ih =>
      obtain ⟨hx, hxs⟩ := List.forall_mem_cons.mp h
      rw [List.mapM_cons, List.mapM_cons, hx, ih hxs]

/-- A list is gone through up to the first of its members that fails. -/
theorem mapM_eq_error {f : α → Except ε β} {xs : List α} {e : ε} :
    xs.mapM f = .error e ↔ ∃ front x back, xs = front ++ x :: back ∧
      (∀ y ∈ front, ∃ b, f y = .ok b) ∧ f x = .error e := by
  induction xs with
  | nil => simp [pure, Except.pure]
  | cons x xs ih =>
      rw [List.mapM_cons, bind_eq_error]
      constructor
      · rintro (hx | ⟨b, hb, h⟩)
        · exact ⟨[], x, xs, rfl, by simp, hx⟩
        · have hrest := (bind_eq_error.mp h).resolve_right fun ⟨_, _, hpure⟩ => nomatch hpure
          obtain ⟨front, y, back, rfl, hfront, hy⟩ := ih.mp hrest
          exact ⟨x :: front, y, back, rfl, List.forall_mem_cons.mpr ⟨⟨b, hb⟩, hfront⟩, hy⟩
      · rintro ⟨front, y, back, hsplit, hfront, hy⟩
        cases front with
        | nil =>
            obtain ⟨rfl, -⟩ := List.cons.inj hsplit
            exact .inl hy
        | cons z front =>
            obtain ⟨rfl, rfl⟩ := List.cons.inj hsplit
            obtain ⟨⟨b, hb⟩, hrest⟩ := List.forall_mem_cons.mp hfront
            exact .inr ⟨b, hb, bind_eq_error.mpr (.inl (ih.mpr ⟨front, y, back, rfl, hrest, hy⟩))⟩

theorem run_pure_eq_ok {a b : α} {g g' : Generator} :
    (pure a : Draws α).run g = (.ok b, g') ↔ a = b ∧ g = g' := by
  have hpure : (pure a : Draws α).run g = (.ok a, g) := rfl
  rw [hpure]
  constructor
  · intro h
    obtain ⟨hok, hg⟩ := Prod.mk.inj h
    exact ⟨Except.ok.inj hok, hg⟩
  · rintro ⟨rfl, rfl⟩
    rfl

/-- What draws nothing leaves the stream. -/
theorem run_lift_eq_ok {x : Outcome α} {b : α} {g g' : Generator} :
    (liftM x : Draws α).run g = (.ok b, g') ↔ x = .ok b ∧ g = g' := by
  have hlift : (liftM x : Draws α).run g = (x, g) := rfl
  rw [hlift]
  constructor
  · intro h
    exact Prod.mk.inj h
  · rintro ⟨rfl, rfl⟩
    rfl

/-- The second part of a computation that draws starts from the stream that the first leaves. -/
theorem run_bind_ok {x : Draws α} {f : α → Draws β} {a : α} {g g₁ : Generator}
    (h : x.run g = (.ok a, g₁)) : (x >>= f).run g = (f a).run g₁ := by
  rw [ExceptT.run_bind]
  change StateT.bind x.run _ g = _
  simp only [StateT.bind]
  rw [h]
  rfl

theorem run_bind_error {x : Draws α} {f : α → Draws β} {fault : Fault} {g g₁ : Generator}
    (h : x.run g = (.error fault, g₁)) : (x >>= f).run g = (.error fault, g₁) := by
  rw [ExceptT.run_bind]
  change StateT.bind x.run _ g = _
  simp only [StateT.bind]
  rw [h]
  rfl

theorem lift_ok_bind (a : α) (f : α → Draws β) :
    ((liftM (Except.ok a : Outcome α) : Draws α) >>= f) = f a := rfl

/-- What fails before a state is looked at leaves the state. -/
theorem run_lift_bind {σ : Type} {x : Outcome α} {f : α → ExceptT Fault (StateM σ) β} {s : σ} :
    ((liftM x : ExceptT Fault (StateM σ) α) >>= f).run s = match x with
      | .ok a => (f a).run s
      | .error fault => (.error fault, s) := by
  cases x <;> rfl

theorem run_lift_bind_ok {x : Outcome α} {f : α → Draws β} {a : α} {g : Generator}
    (h : x = .ok a) : ((liftM x : Draws α) >>= f).run g = (f a).run g := by
  rw [h]
  rfl

theorem run_get_bind {f : Generator → Draws β} {g : Generator} :
    ((get : Draws Generator) >>= f).run g = (f g).run g := rfl

theorem run_set_bind {f : Unit → Draws β} {g g' : Generator} :
    ((set g' : Draws Unit) >>= f).run g = (f ()).run g' := rfl

/-- A step for every member, none of which draws. -/
theorem run_mapM_lift {f : α → Outcome β} {xs : List α} {ys : List β} {g : Generator}
    (h : xs.mapM f = .ok ys) : (xs.mapM fun x => (liftM (f x) : Draws β)).run g = (.ok ys, g) := by
  induction xs generalizing ys with
  | nil =>
      obtain rfl := Except.ok.inj h
      rfl
  | cons x xs ih =>
      rw [List.mapM_cons, bind_eq_ok] at h
      obtain ⟨y, hy, h⟩ := h
      obtain ⟨rest, hrest, h⟩ := bind_eq_ok.mp h
      obtain rfl := Except.ok.inj h
      rw [List.mapM_cons, run_lift_bind_ok hy, run_bind_ok (ih hrest)]
      rfl

theorem run_bind_eq_ok {x : Draws α} {f : α → Draws β} {b : β} {g g' : Generator} :
    (x >>= f).run g = (.ok b, g') ↔
      ∃ a g₁, x.run g = (.ok a, g₁) ∧ (f a).run g₁ = (.ok b, g') := by
  constructor
  · intro h
    rcases hx : x.run g with ⟨fault | a, g₁⟩
    · rw [run_bind_error hx] at h
      cases h
    · exact ⟨a, g₁, rfl, run_bind_ok hx ▸ h⟩
  · rintro ⟨a, g₁, hx, hf⟩
    rw [run_bind_ok hx, hf]

/-- What draws nothing leaves the stream to what comes after it. -/
theorem run_lift_bind_eq_ok {x : Outcome α} {f : α → Draws β} {b : β} {g g' : Generator} :
    ((liftM x : Draws α) >>= f).run g = (.ok b, g') ↔
      ∃ a, x = .ok a ∧ (f a).run g = (.ok b, g') := by
  rw [run_bind_eq_ok]
  constructor
  · rintro ⟨a, _, hx, hf⟩
    obtain ⟨ha, rfl⟩ := run_lift_eq_ok.mp hx
    exact ⟨a, ha, hf⟩
  · rintro ⟨a, ha, hf⟩
    exact ⟨a, g, run_lift_eq_ok.mpr ⟨ha, rfl⟩, hf⟩

theorem run_lift_eq_error {x : Outcome α} {fault : Fault} {g g' : Generator} :
    (liftM x : Draws α).run g = (.error fault, g') ↔ x = .error fault ∧ g = g' := by
  have hlift : (liftM x : Draws α).run g = (x, g) := rfl
  rw [hlift, Prod.mk.injEq]

/-- A computation in two parts stops in the first, or in the second from where the first leaves the
stream. -/
theorem run_bind_eq_error {x : Draws α} {f : α → Draws β} {fault : Fault} {g g' : Generator} :
    (x >>= f).run g = (.error fault, g') ↔ x.run g = (.error fault, g') ∨
      ∃ a g₁, x.run g = (.ok a, g₁) ∧ (f a).run g₁ = (.error fault, g') := by
  rcases hx : x.run g with ⟨fault' | a, g₁⟩
  · rw [run_bind_error hx]
    constructor
    · intro h
      obtain ⟨hfault, rfl⟩ := Prod.mk.inj h
      exact .inl (by rw [Except.error.inj hfault])
    · rintro (h | ⟨a, g₂, h, -⟩)
      · obtain ⟨hfault, rfl⟩ := Prod.mk.inj h
        rw [Except.error.inj hfault]
      · cases congrArg Prod.fst h
  · rw [run_bind_ok hx]
    constructor
    · intro h
      exact .inr ⟨a, g₁, rfl, h⟩
    · rintro (h | ⟨a', g₂, h, hf⟩)
      · cases congrArg Prod.fst h
      · obtain ⟨ha, rfl⟩ := Prod.mk.inj h
        rw [Except.ok.inj ha, hf]

theorem run_lift_bind_eq_error {x : Outcome α} {f : α → Draws β} {fault : Fault}
    {g g' : Generator} : ((liftM x : Draws α) >>= f).run g = (.error fault, g') ↔
      (x = .error fault ∧ g = g') ∨ ∃ a, x = .ok a ∧ (f a).run g = (.error fault, g') := by
  rw [run_bind_eq_error, run_lift_eq_error]
  constructor
  · rintro (h | ⟨a, _, hx, hf⟩)
    · exact .inl h
    · obtain ⟨ha, rfl⟩ := run_lift_eq_ok.mp hx
      exact .inr ⟨a, ha, hf⟩
  · rintro (h | ⟨a, ha, hf⟩)
    · exact .inl h
    · exact .inr ⟨a, g, run_lift_eq_ok.mpr ⟨ha, rfl⟩, hf⟩

/-- Steps that draw nothing and give results give them outside a stream as well. -/
theorem mapM_eq_ok_of_run {f : α → Outcome β} {xs : List α} {ys : List β} {g g' : Generator}
    (h : (xs.mapM fun x => (liftM (f x) : Draws β)).run g = (.ok ys, g')) :
    xs.mapM f = .ok ys := by
  induction xs generalizing ys g g' with
  | nil =>
      rw [List.mapM_nil] at h ⊢
      cases h
      rfl
  | cons x xs ih =>
      rw [List.mapM_cons] at h ⊢
      obtain ⟨y, hy, h⟩ := run_lift_bind_eq_ok.mp h
      obtain ⟨rest, g₁, hrest, h⟩ := run_bind_eq_ok.mp h
      rw [hy, ok_bind, ih hrest, ok_bind]
      cases h
      rfl

end BlockNet
