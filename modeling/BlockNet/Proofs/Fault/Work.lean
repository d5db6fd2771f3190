import BlockNet.Proofs.Outcome
import BlockNet.Value.Arithmetic

/-! # Faults of the work

A session says so when it is not set up for what is asked of it. Nothing that it sets to work fails
that way: what goes wrong in reading values, or with shapes and tensors, is a fault of the work. -/

namespace BlockNet

/-- Does a fault tell of the work, and not of a session that is not set up for it? -/
@[simp]
def Fault.OfWork : Fault → Prop
  | .notReady _ | .notInitialized _ => False
  | _ => True

/-- A fault of the work is of no kind by which callers tell that a session is not set up. -/
theorem Fault.ofWork_iff (fault : Fault) :
    fault.OfWork ↔ fault.kind ≠ .notReady ∧ fault.kind ≠ .notInitialized := by
  cases fault with
  | mishap m => cases m <;> simp [kind, Mishap.kind]
  | _ => simp [kind]

/-! ## Failing in some ways only -/

section

variable {ε ε' α β : Type} {P Q : ε → Prop}

/-- A computation that fails only in ways that have a property, if at all. -/
def FailsBy (P : ε → Prop) (x : Except ε α) : Prop := ∀ e, x = .error e → P e

theorem FailsBy.mono {x : Except ε α} (h : FailsBy P x) (hPQ : ∀ e, P e → Q e) : FailsBy Q x :=
  fun e he => hPQ e (h e he)

@[simp]
theorem failsBy_ok (a : α) : FailsBy P (.ok a) := by rintro _ ⟨⟩

@[simp]
theorem failsBy_pure (a : α) : FailsBy P (pure a) := failsBy_ok a

@[simp]
theorem failsBy_error {e : ε} : FailsBy P (.error e : Except ε α) ↔ P e :=
  ⟨fun h => h e rfl, by rintro h _ ⟨⟩; exact h⟩

@[simp]
theorem failsBy_bind {x : Except ε α} {f : α → Except ε β} :
    FailsBy P (x >>= f) ↔ FailsBy P x ∧ ∀ a, x = .ok a → FailsBy P (f a) := by
  cases x with
  | error e =>
      have hbind : (.error e >>= f : Except ε β) = .error e := rfl
      simp [hbind]
  | ok a => simp [ok_bind]

@[simp]
theorem failsBy_map {x : Except ε α} {f : α → β} : FailsBy P (x.map f) ↔ FailsBy P x := by
  cases x <;> simp [Except.map]

@[simp]
theorem failsBy_functor_map {x : Except ε α} {f : α → β} : FailsBy P (f <$> x) ↔ FailsBy P x :=
  failsBy_map

@[simp]
theorem failsBy_mapError {x : Except ε α} {f : ε → ε'} {P : ε' → Prop} :
    FailsBy P (x.mapError f) ↔ FailsBy (fun e => P (f e)) x := by
  cases x <;> simp [Except.mapError]

@[simp]
theorem failsBy_ite {c : Prop} [Decidable c] {x y : Except ε α} :
    FailsBy P (if c then x else y) ↔ (c → FailsBy P x) ∧ (¬c → FailsBy P y) := by
  split <;> simp [*]

@[simp]
theorem failsBy_mapM {f : α → Except ε β} {xs : List α} (h : ∀ x ∈ xs, FailsBy P (f x)) :
    FailsBy P (xs.mapM f) := by
  induction xs with
  | nil => exact failsBy_ok []
  | cons x xs ih =>
      obtain ⟨hx, hxs⟩ := List.forall_mem_cons.mp h
      rw [List.mapM_cons, failsBy_bind]
      refine ⟨hx, fun y _ => ?_⟩
      rw [failsBy_bind]
      exact ⟨ih hxs, fun ys _ => failsBy_ok _⟩

theorem failsBy_foldlM_reached {f : β → α → Except ε β} {xs : List α} {b : β}
    (h : ∀ before x after b', xs = before ++ x :: after → before.foldlM f b = .ok b' →
      FailsBy P (f b' x)) : FailsBy P (xs.foldlM f b) := by
  induction xs generalizing b with
  | nil => exact failsBy_ok b
  | cons x xs ih =>
      rw [List.foldlM_cons, failsBy_bind]
      refine ⟨h [] x xs b rfl rfl, fun b₁ hb₁ => ih fun before y after b' hxs hb' => ?_⟩
      refine h (x :: before) y after b' (by rw [hxs, List.cons_append]) ?_
      rw [List.foldlM_cons, hb₁, ok_bind, hb']

@[simp]
theorem failsBy_foldlM {f : β → α → Except ε β} {xs : List α}
    (h : ∀ b, ∀ x ∈ xs, FailsBy P (f b x)) (b : β) : FailsBy P (xs.foldlM f b) :=
  failsBy_foldlM_reached fun before x _ b' hxs _ =>
    h b' x (hxs ▸ List.mem_append_right before List.mem_cons_self)

end

/-- An outcome that fails by a fault of a kind. -/
def FailsAs {α : Type} (kind : FaultKind) (x : Outcome α) : Prop :=
  ∃ fault, x = .error fault ∧ fault.kind = kind

instance {α : Type} (kind : FaultKind) (x : Outcome α) : Decidable (FailsAs kind x) :=
  match x with
  | .ok _ => .isFalse (by rintro ⟨fault, ⟨⟩, -⟩)
  | .error fault =>
      decidable_of_iff (fault.kind = kind)
        ⟨fun h => ⟨fault, rfl, h⟩, by rintro ⟨_, ⟨⟩, h⟩; exact h⟩

/-! ## Draws -/

section

variable {α β : Type} {P : Fault → Prop}

/-- A computation that draws from a stream and fails only in ways that have a property, wherever the
stream is. -/
def DrawsFailBy (P : Fault → Prop) (x : Draws α) : Prop := ∀ g, FailsBy P (x.run g).1

@[simp]
theorem drawsFailBy_pure (a : α) : DrawsFailBy P (pure a) := fun _ => failsBy_ok a

@[simp]
theorem drawsFailBy_throw {fault : Fault} : DrawsFailBy P (throw fault : Draws α) ↔ P fault :=
  ⟨fun h => failsBy_error.mp (h ⟨0⟩), fun h _ => failsBy_error.mpr h⟩

@[simp]
theorem drawsFailBy_get : DrawsFailBy P (get : Draws Generator) := fun g => failsBy_ok g

@[simp]
theorem drawsFailBy_set (g : Generator) : DrawsFailBy P (set g : Draws Unit) := fun _ => failsBy_ok ()

@[simp]
theorem drawsFailBy_lift {x : Outcome α} : DrawsFailBy P (liftM x : Draws α) ↔ FailsBy P x :=
  ⟨fun h => h ⟨0⟩, fun h _ => h⟩

@[simp]
theorem drawsFailBy_bind {x : Draws α} {f : α → Draws β} (h : DrawsFailBy P x)
    (hf : ∀ a, DrawsFailBy P (f a)) : DrawsFailBy P (x >>= f) := by
  intro g
  have hx := h g
  rcases hrun : x.run g with ⟨fault | a, g₁⟩
  · rw [hrun] at hx
    rw [run_bind_error hrun]
    exact failsBy_error.mpr (failsBy_error.mp hx)
  · rw [run_bind_ok hrun]
    exact hf a g₁

@[simp]
theorem drawsFailBy_lift_bind {x : Outcome α} {f : α → Draws β} :
    DrawsFailBy P ((liftM x : Draws α) >>= f) ↔
      FailsBy P x ∧ ∀ a, x = .ok a → DrawsFailBy P (f a) := by
  cases x with
  | ok a => simp [lift_ok_bind]
  | error fault =>
      have hbind : ((liftM (.error fault : Outcome α) : Draws α) >>= f) = throw fault := rfl
      simp [hbind]

@[simp]
theorem drawsFailBy_map {x : Draws α} {f : α → β} (h : DrawsFailBy P x) :
    DrawsFailBy P (f <$> x) := by
  rw [← bind_pure_comp]
  exact drawsFailBy_bind h fun _ => drawsFailBy_pure _

@[simp]
theorem drawsFailBy_ite {c : Prop} [Decidable c] {x y : Draws α} :
    DrawsFailBy P (if c then x else y) ↔ (c → DrawsFailBy P x) ∧ (¬c → DrawsFailBy P y) := by
  split <;> simp [*]

@[simp]
theorem drawsFailBy_mapM {f : α → Draws β} {xs : List α} (h : ∀ x ∈ xs, DrawsFailBy P (f x)) :
    DrawsFailBy P (xs.mapM f) := by
  induction xs with
  | nil => exact drawsFailBy_pure []
  | cons x xs ih =>
      obtain ⟨hx, hxs⟩ := List.forall_mem_cons.mp h
      rw [List.mapM_cons]
      exact drawsFailBy_bind hx fun _ => drawsFailBy_bind (ih hxs) fun _ => drawsFailBy_pure _

end

/-! ## Values -/

section

variable {α : Type}

@[simp]
theorem mishap_fails (m : Mishap) : FailsBy Fault.OfWork (mishap m : Outcome α) := by
  simp [mishap]

@[simp]
theorem orMishap_fails (m : Mishap) (x : Option α) : FailsBy Fault.OfWork (orMishap m x) := by
  cases x <;> simp [orMishap]

@[simp]
theorem demand_fails (holds : Bool) (text : String) : FailsBy Fault.OfWork (demand holds text) := by
  simp [demand]

end

namespace Value

@[simp]
theorem toInt_fails (v : Value) : FailsBy Fault.OfWork v.toInt := by
  fun_cases toInt <;> simp

@[simp]
theorem toFloat_fails (v : Value) : FailsBy Fault.OfWork v.toFloat := by
  fun_cases toFloat <;> simp

@[simp]
theorem toList_fails (v : Value) : FailsBy Fault.OfWork v.toList := by
  fun_cases toList <;> simp

@[simp]
theorem toEntries_fails (v : Value) : FailsBy Fault.OfWork v.toEntries := by
  have hentry : ∀ v : Value, FailsBy Fault.OfWork v.toEntry := by
    intro v
    rw [toEntry, failsBy_bind]
    refine ⟨v.toList_fails, fun items _ => ?_⟩
    split <;> simp
  fun_cases toEntries <;> simp [hentry]

@[simp]
theorem members_fails (v : Value) : FailsBy Fault.OfWork v.members := by
  fun_cases members <;> simp

end Value

namespace Entries

@[simp]
theorem require_fails (entries : Entries) (name : String) :
    FailsBy Fault.OfWork (entries.require name) := by
  simp [require]

@[simp]
theorem integer_fails (entries : Entries) (name : String) :
    FailsBy Fault.OfWork (entries.integer name) := by
  simp [integer]

end Entries

/-! ## Numbers -/

@[simp]
theorem Binary.floor_fails (b : Binary) : FailsBy Fault.OfWork b.floor := by
  fun_cases Binary.floor <;> simp

@[simp]
theorem Binary.ceil_fails (b : Binary) : FailsBy Fault.OfWork b.ceil := by
  fun_cases Binary.ceil <;> simp

namespace Number

variable (a b : Number)

@[simp]
theorem toInt_fails : FailsBy Fault.OfWork a.toInt := by
  simp [toInt]

@[simp]
theorem toFloat_fails : FailsBy Fault.OfWork a.toFloat := by
  simp [toFloat]

@[simp]
theorem toFactor_fails : FailsBy Fault.OfWork a.toFactor := by
  fun_cases toFactor <;> simp

@[simp]
theorem dividedBy_fails : FailsBy Fault.OfWork (a.dividedBy b) := by
  rw [dividedBy]
  split <;> simp

@[simp]
theorem ceilDividedBy_fails : FailsBy Fault.OfWork (a.ceilDividedBy b) := by
  fun_cases ceilDividedBy <;> simp

@[simp]
theorem times_fails : FailsBy Fault.OfWork (a.times b) := by
  rw [times]
  split <;> simp

@[simp]
theorem plus_fails : FailsBy Fault.OfWork (a.plus b) := by
  rw [plus]
  split <;> simp

@[simp]
theorem minus_fails : FailsBy Fault.OfWork (a.minus b) := by
  rw [minus]
  split <;> simp

@[simp]
theorem realPower_fails (x : Float) (k : Int) : FailsBy Fault.OfWork (realPower x k) := by
  simp [realPower]

end Number

end BlockNet
