import BlockNet.Dataset.Batch
import BlockNet.Proofs.Outcome
import Mathlib.Data.Int.ModEq

/-! # The streams that batches are drawn from

The batch at a step of an epoch is drawn from a stream of its own, whose seed is put together from
the seed of the dataset, the place of the split, the epoch and the step. The multipliers are fixed:
an epoch counts as 101 steps and a split as 7919. So the streams of an epoch stay clear of those of
the next one for 101 steps, and in some epoch those of the training split reach those of the
validation split. -/

namespace BlockNet

theorem Number.one_le_of_integer? {n : Number} {k : Int} (hlt : n.lt (.whole 1) = false)
    (hk : n.integer? = some k) : 1 ≤ k := by
  simp only [lt, beq_eq_false_iff_ne] at hlt
  cases n with
  | real x => cases hk
  | _ =>
      obtain rfl := Option.some.inj hk
      simpa [compare, integer?, Int.compare_eq_lt] using hlt

/-- Seeds that agree modulo `2 ^ 64` start the same stream, and no others do. -/
theorem Generator.seeded_eq_iff {a b : Int} : seeded a = seeded b ↔ a ≡ b [ZMOD 2 ^ 64] := by
  have hlt : ∀ a : Int, (a % 2 ^ 64).toNat < 2 ^ 64 := by omega
  rw [seeded, seeded, mk.injEq, UInt64.ofInt, UInt64.ofInt, ← UInt64.toNat_inj,
    UInt64.toNat_ofNat_of_lt' (hlt a), UInt64.toNat_ofNat_of_lt' (hlt b), Int.ModEq]
  omega

namespace BatchPlan

/-! ## Plans made of values -/

/-- A plan that was made of values, each of which has passed its check. -/
structure Made (p : BatchPlan) (spec : DatasetSpec) (split : Split) (seed : Value) : Prop where
  spec : p.spec = spec
  split : p.split = split
  seed : p.seed = seed
  limit : ∀ limit, p.limit = some limit → limit.lt (.whole 1) = false

theorem ofValues_made {spec : DatasetSpec} (split : Split) {batchSize seed limit : Value}
    {p : BatchPlan} (h : ofValues spec (.text split.name) batchSize seed limit = .ok p) :
    p.Made spec split seed := by
  have hsplit : Split.ofValue (.text split.name) = .ok split := by cases split <;> rfl
  rw [ofValues, hsplit, ok_bind] at h
  obtain ⟨size, -, h⟩ := bind_eq_ok.mp h
  obtain ⟨_, -, h⟩ := bind_eq_ok.mp h
  dsimp only at h
  -- a limit is read and checked first, then both cases go on alike
  split at h
  · obtain ⟨_, hlimit, h⟩ := bind_eq_ok.mp h
    obtain rfl := Except.ok.inj hlimit
    repeat obtain ⟨_, -, h⟩ := bind_eq_ok.mp h
    obtain rfl := Except.ok.inj h
    exact ⟨rfl, rfl, rfl, by rintro _ ⟨⟩⟩
  · obtain ⟨n, -, h⟩ := bind_eq_ok.mp h
    obtain ⟨_, hdemand, h⟩ := bind_eq_ok.mp h
    have hn : n.lt (.whole 1) = false := by simpa using demand_eq_ok.mp hdemand
    obtain ⟨_, hlimit, h⟩ := bind_eq_ok.mp h
    obtain rfl := Except.ok.inj hlimit
    repeat obtain ⟨_, -, h⟩ := bind_eq_ok.mp h
    obtain rfl := Except.ok.inj h
    exact ⟨rfl, rfl, rfl, fun _ h => Option.some.inj h ▸ hn⟩

namespace Made

variable {p q : BatchPlan} {spec : DatasetSpec} {split : Split} {seed : Value}

theorem one_le_batchCount (hp : p.Made spec split seed) {n : Nat} (hn : p.batchCount = .ok n) :
    1 ≤ n := by
  obtain ⟨count, hcount, hn⟩ := bind_eq_ok.mp hn
  obtain ⟨k, hk, hn⟩ := bind_eq_ok.mp hn
  obtain rfl := Except.ok.inj hn
  obtain ⟨full, -, hcount⟩ := bind_eq_ok.mp hcount
  have hfull : (Number.whole (max 1 full)).lt (.whole 1) = false := by
    simp [Number.lt, Number.compare, Number.integer?, Int.compare_eq_lt]
  have hle : count.lt (.whole 1) = false := by
    obtain rfl := Except.ok.inj hcount
    cases hlimit : p.limit with
    | none => exact hfull
    | some limit =>
        rw [Option.elim_some, Number.smaller]
        split
        · exact hp.limit limit hlimit
        · exact hfull
  have := Number.one_le_of_integer? hle (orMishap_eq_ok.mp hk)
  omega

end Made

/-! ## The streams of a split -/

/-- The stream that the batch at a step of an epoch is drawn from. -/
def streamAt (p : BatchPlan) (epoch : Value) (step : Nat) : Outcome Generator := do
  .ok (Generator.seeded (← p.batchSeed epoch step))

section Streams

variable {p q : BatchPlan} {spec spec' : DatasetSpec} {seed : Int}

theorem Made.streamAt_train (hp : p.Made spec .train (.int seed)) (epoch step : Nat) :
    p.streamAt (.int epoch) step =
      .ok (.seeded (seed * 1000003 + 7919 + (101 * epoch + step : Nat))) := by
  rw [streamAt, batchSeed, hp.seed, hp.split]
  simp only [Value.number?, orMishap, Number.times, Number.plus, Number.integer?, ok_bind,
    Number.toInt, Number.toValue, Value.toInt, Split.place]
  congr 2
  push_cast
  omega

theorem Made.streamAt_validation (hq : q.Made spec .validation (.int seed)) (epoch : Value)
    (step : Nat) :
    q.streamAt epoch step = .ok (.seeded (seed * 1000003 + 7919 + (7919 + step : Nat))) := by
  rw [streamAt, batchSeed, hq.seed, hq.split]
  simp only [Value.number?, orMishap, Number.times, Number.plus, Number.integer?, ok_bind,
    Number.toInt, Number.toValue, Value.toInt, Split.place]
  congr 2
  push_cast
  omega

theorem seeded_offset_iff (base : Int) (a b : Nat) :
    (Except.ok (.seeded (base + a)) : Outcome Generator) = .ok (.seeded (base + b)) ↔
      a ≡ b [MOD 2 ^ 64] := by
  rw [Except.ok.injEq, Generator.seeded_eq_iff]
  constructor
  · intro h
    exact Int.natCast_modEq_iff.mp (Int.ModEq.add_left_cancel' base h)
  · intro h
    exact (Int.natCast_modEq_iff.mpr h).add_left base

/-- Two steps of training are drawn from the same stream when the numbers that they are seeded by
agree modulo `2 ^ 64`. -/
theorem Made.streamAt_train_eq_iff (hp : p.Made spec .train (.int seed)) (e k e' k' : Nat) :
    p.streamAt (.int e) k = p.streamAt (.int e') k' ↔
      101 * e + k ≡ 101 * e' + k' [MOD 2 ^ 64] := by
  rw [hp.streamAt_train, hp.streamAt_train, seeded_offset_iff]

/-- A step of the validation counts as one 7919 steps after the start of the training split. -/
theorem Made.streamAt_validation_eq_iff (hp : p.Made spec .train (.int seed))
    (hq : q.Made spec' .validation (.int seed)) (e k : Nat) (e' : Value) (j : Nat) :
    p.streamAt (.int e) k = q.streamAt e' j ↔ 101 * e + k ≡ 7919 + j [MOD 2 ^ 64] := by
  rw [hp.streamAt_train, hq.streamAt_validation, seeded_offset_iff]

/-- The streams of so many epochs of training and of the validation: each training batch has one of
its own, and none that the validation draws from. -/
structure Apart (p q : BatchPlan) (n m epochs : Nat) : Prop where
  fresh : ∀ e e', 1 ≤ e → e ≤ epochs → 1 ≤ e' → e' ≤ epochs → ∀ k < n, ∀ k' < n,
    p.streamAt (.int e) k = p.streamAt (.int e') k' → e = e' ∧ k = k'
  unseen : ∀ e, 1 ≤ e → e ≤ epochs → ∀ k < n, ∀ (e' : Value), ∀ j < m,
    p.streamAt (.int e) k ≠ q.streamAt e' j

theorem le_of_fresh {n epochs : Nat} (hp : p.Made spec .train (.int seed))
    (h : ∀ e e', 1 ≤ e → e ≤ epochs → 1 ≤ e' → e' ≤ epochs → ∀ k < n, ∀ k' < n,
      p.streamAt (.int e) k = p.streamAt (.int e') k' → e = e' ∧ k = k') :
    epochs ≤ 1 ∨ n ≤ 101 := by
  by_contra! hlong
  -- the step after 101 others is seeded like the first step of the next epoch
  have hrepeat : p.streamAt (.int (1 : Nat)) 101 = p.streamAt (.int (2 : Nat)) 0 :=
    (hp.streamAt_train_eq_iff 1 101 2 0).mpr rfl
  have := h 1 2 le_rfl (by omega) (by omega) (by omega) 101 (by omega) 0 (by omega) hrepeat
  omega

theorem fresh_of_le {n epochs : Nat} (hp : p.Made spec .train (.int seed))
    (hwrap : 101 * epochs + n ≤ 2 ^ 64) (hle : epochs ≤ 1 ∨ n ≤ 101) :
    ∀ e e', 1 ≤ e → e ≤ epochs → 1 ≤ e' → e' ≤ epochs → ∀ k < n, ∀ k' < n,
      p.streamAt (.int e) k = p.streamAt (.int e') k' → e = e' ∧ k = k' := by
  intro e e' he hee he' hee' k hk k' hk' h
  have hmod := (hp.streamAt_train_eq_iff e k e' k').mp h
  have heq : 101 * e + k = 101 * e' + k' :=
    Nat.ModEq.eq_of_lt_of_lt hmod (by omega) (by omega)
  omega

/-- The seeds of an epoch lie beside those of the validation, or the streams meet at the first number
in both. -/
theorem unseen_iff {n m epochs : Nat} (hp : p.Made spec .train (.int seed))
    (hq : q.Made spec' .validation (.int seed)) (hn : 1 ≤ n) (hm : 1 ≤ m)
    (hwrap : 101 * epochs + n ≤ 2 ^ 64) (hwrap' : 7919 + m ≤ 2 ^ 64) :
    (∀ e, 1 ≤ e → e ≤ epochs → ∀ k < n, ∀ (e' : Value), ∀ j < m,
      p.streamAt (.int e) k ≠ q.streamAt e' j) ↔
      ∀ e, 1 ≤ e → e ≤ epochs → 101 * e + n ≤ 7919 ∨ 7919 + m ≤ 101 * e := by
  refine forall_congr' fun e => forall_congr' fun he => forall_congr' fun hee => ?_
  simp only [ne_eq, hp.streamAt_validation_eq_iff hq]
  constructor
  · intro h
    by_contra! hmeet
    refine h (7919 - 101 * e) (by omega) .null (101 * e - 7919) (by omega) ?_
    rw [show 101 * e + (7919 - 101 * e) = 7919 + (101 * e - 7919) by omega]
  · intro h k hk _ j hj hmod
    have := Nat.ModEq.eq_of_lt_of_lt hmod (by omega) (by omega)
    omega

theorem apart_iff {n m epochs : Nat} (hp : p.Made spec .train (.int seed))
    (hq : q.Made spec' .validation (.int seed)) (hn : 1 ≤ n) (hm : 1 ≤ m)
    (hwrap : 101 * epochs + n ≤ 2 ^ 64) (hwrap' : 7919 + m ≤ 2 ^ 64) :
    Apart p q n m epochs ↔ (epochs ≤ 1 ∨ n ≤ 101) ∧
      ∀ e, 1 ≤ e → e ≤ epochs → 101 * e + n ≤ 7919 ∨ 7919 + m ≤ 101 * e := by
  rw [← unseen_iff hp hq hn hm hwrap hwrap']
  constructor
  · intro h
    exact ⟨le_of_fresh hp h.fresh, h.unseen⟩
  · rintro ⟨hle, hunseen⟩
    exact ⟨fresh_of_le hp hwrap hle, hunseen⟩

end Streams

/-- Batches of the same size that are drawn from the same stream are the same. -/
theorem batchAt_eq_of_streamAt {α : Type} [Scalar α] {p q : BatchPlan} {e e' : Value} {k k' : Nat}
    (hspec : p.spec = q.spec) (hrows : p.batchRows k = q.batchRows k')
    (hstream : p.streamAt e k = q.streamAt e' k') (prototypes : Tensor α) :
    p.batchAt prototypes e k = q.batchAt prototypes e' k' := by
  have hlabels : p.labelsFrom = q.labelsFrom := by
    funext g rows
    rw [labelsFrom, labelsFrom, hspec]
  rw [streamAt, streamAt] at hstream
  rw [batchAt, batchAt, hspec, hrows, hlabels]
  cases hp : p.batchSeed e k with
  | error fault =>
      rw [hp] at hstream
      cases hq : q.batchSeed e' k' with
      | error fault' =>
          rw [hq] at hstream
          cases hstream
          rfl
      | ok seed' =>
          rw [hq] at hstream
          cases hstream
  | ok seed =>
      rw [hp] at hstream
      cases hq : q.batchSeed e' k' with
      | error fault' =>
          rw [hq] at hstream
          cases hstream
      | ok seed' =>
          rw [hq] at hstream
          simp only [ok_bind, Except.ok.inj hstream]

/-- When the training split draws fresh samples: two of its steps share a stream, or one shares that
of a step of the validation, when the numbers they are seeded by agree modulo `2 ^ 64`. As long as
the seeds do not wrap around, every batch of a training has a stream of its own if and only if there
is one epoch or none is longer than 101 steps, and none meets a batch of the validation if and only
if the seeds of each epoch lie before or behind those of the validation. -/
theorem ofValues_apart_iff {spec spec' : DatasetSpec} {size size' limit limit' : Value}
    {seed : Int} {p q : BatchPlan} {n m : Nat}
    (hp : ofValues spec (.text "train") size (.int seed) limit = .ok p)
    (hq : ofValues spec' (.text "val") size' (.int seed) limit' = .ok q)
    (hn : p.batchCount = .ok n) (hm : q.batchCount = .ok m) :
    (∀ e k e' k' : Nat, p.streamAt (.int e) k = p.streamAt (.int e') k' ↔
        101 * e + k ≡ 101 * e' + k' [MOD 2 ^ 64]) ∧
      (∀ (e k : Nat) (e' : Value) (j : Nat), p.streamAt (.int e) k = q.streamAt e' j ↔
        101 * e + k ≡ 7919 + j [MOD 2 ^ 64]) ∧
      ∀ epochs : Nat, 101 * epochs + n ≤ 2 ^ 64 → 7919 + m ≤ 2 ^ 64 →
        (Apart p q n m epochs ↔ (epochs ≤ 1 ∨ n ≤ 101) ∧
          ∀ e, 1 ≤ e → e ≤ epochs → 101 * e + n ≤ 7919 ∨ 7919 + m ≤ 101 * e) := by
  have htrain := ofValues_made .train hp
  have hval := ofValues_made .validation hq
  refine ⟨htrain.streamAt_train_eq_iff, htrain.streamAt_validation_eq_iff hval, ?_⟩
  intro epochs hwrap hwrap'
  exact apart_iff htrain hval (htrain.one_le_batchCount hn) (hval.one_le_batchCount hm) hwrap hwrap'

/-- Fifty epochs of twenty batches each, with two batches of validation. -/
theorem ofValues_apart_images : ∃ p q,
    ofValues .mnist (.text "train") (.int 32) (.int 0) (.int 20) = .ok p ∧
      ofValues .mnist (.text "val") (.int 32) (.int 0) (.int 2) = .ok q ∧
        p.batchCount = .ok 20 ∧ q.batchCount = .ok 2 ∧ Apart p q 20 2 50 := by
  have hp : ofValues .mnist (.text "train") (.int 32) (.int 0) (.int 20) =
      .ok ⟨.mnist, .train, .whole 32, .int 0, some (.whole 20)⟩ := rfl
  have hq : ofValues .mnist (.text "val") (.int 32) (.int 0) (.int 2) =
      .ok ⟨.mnist, .validation, .whole 32, .int 0, some (.whole 2)⟩ := rfl
  have hn : batchCount ⟨.mnist, .train, .whole 32, .int 0, some (.whole 20)⟩ = .ok 20 := by
    rw [← toOption_eq_some]
    decide +kernel
  have hm : batchCount ⟨.mnist, .validation, .whole 32, .int 0, some (.whole 2)⟩ = .ok 2 := by
    rw [← toOption_eq_some]
    decide +kernel
  obtain ⟨-, -, hapart⟩ := ofValues_apart_iff hp hq hn hm
  exact ⟨_, _, hp, hq, hn, hm, (hapart 50 (by omega) (by omega)).mpr ⟨by omega, by omega⟩⟩

/-- Flowers drawn one by one: one of the first epoch comes back as the first of the second epoch, and
the validation begins with one of the 78th. -/
theorem iris_repeats : ∃ p q, ofValues .iris (.text "train") (.int 1) (.int 0) .null = .ok p ∧
    ofValues .iris (.text "val") (.int 1) (.int 0) .null = .ok q ∧
      p.batchCount = .ok 120 ∧ q.batchCount = .ok 30 ∧
        (p.streamAt (.int 1) 101 = .ok (.seeded 8121) ∧
          p.streamAt (.int 2) 0 = .ok (.seeded 8121)) ∧
        (p.streamAt (.int 78) 41 = .ok (.seeded 15838) ∧
          q.streamAt (.int 1) 0 = .ok (.seeded 15838)) ∧
        ∀ prototypes : Tensor Float,
          p.batchAt prototypes (.int 1) 101 = p.batchAt prototypes (.int 2) 0 ∧
            p.batchAt prototypes (.int 78) 41 = q.batchAt prototypes (.int 1) 0 := by
  refine ⟨_, _, rfl, rfl, ?_, ?_, ⟨rfl, rfl⟩, ⟨rfl, rfl⟩, ?_⟩
  · rw [← toOption_eq_some]
    decide +kernel
  · rw [← toOption_eq_some]
    decide +kernel
  · intro prototypes
    exact ⟨batchAt_eq_of_streamAt rfl rfl rfl prototypes,
      batchAt_eq_of_streamAt rfl rfl rfl prototypes⟩

end BatchPlan

end BlockNet
