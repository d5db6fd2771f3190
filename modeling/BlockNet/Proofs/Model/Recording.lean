import BlockNet.Proofs.Compilation.Keys
import BlockNet.Proofs.Model.Announced
import BlockNet.Proofs.Value.Equal

/-! # What traces record

The listeners of a model are its active traces and whoever else has joined, each of them once. So a
trace hears of every pass while it is active, and what it has recorded is told by the passes that it
has heard since it was last started anew, whatever became of them. -/

namespace BlockNet

variable {α : Type}

/-! ## Counts -/

namespace Trace

/-- The count of a node, which is nothing if the node has not been counted. -/
def countOf (counts : List (String × Nat)) (node : String) : Nat :=
  ((counts.find? (·.1 == node)).map (·.2)).getD 0

theorem countOf_cons (other : String) (n : Nat) (counts : List (String × Nat)) (node : String) :
    countOf ((other, n) :: counts) node = if other = node then n else countOf counts node := by
  by_cases h : other = node
  · simp [countOf, h]
  · have hne : (other == node) = false := by simpa using h
    simp [countOf, hne, h]

theorem countOf_countUp (node other : String) (counts : List (String × Nat)) :
    countOf (countUp node counts) other =
      countOf counts other + if node = other then 1 else 0 := by
  induction counts with
  | nil =>
      rw [countUp, countOf_cons]
      simp [countOf]
  | cons entry counts ih =>
      obtain ⟨key, n⟩ := entry
      rw [countUp]
      split
      · rename_i heq
        subst heq
        rw [countOf_cons, countOf_cons]
        split <;> rfl
      · rename_i hne
        rw [countOf_cons, countOf_cons, ih]
        by_cases h : key = other
        · subst h
          simp [Ne.symm hne]
        · simp [h]

theorem sum_countUp (node : String) (counts : List (String × Nat)) :
    ((countUp node counts).map (·.2)).sum = (counts.map (·.2)).sum + 1 := by
  induction counts with
  | nil => rfl
  | cons entry counts ih =>
      rw [countUp]
      split
      · simp only [List.map_cons, List.sum_cons]
        omega
      · simp only [List.map_cons, List.sum_cons, ih]
        omega

/-- The counts of a trace are those of its records. -/
structure Counted (t : Trace) : Prop where
  each : ∀ node, countOf t.counts node = t.records.countP (·.node == node)
  total : (t.counts.map (·.2)).sum = t.records.length

theorem Counted.hear {t : Trace} (h : t.Counted) (e : Event) : (t.hear e).Counted := by
  cases e with
  | passStart training => exact ⟨h.each, h.total⟩
  | passEnd layers => exact h
  | layerOutput node kind dims elementType =>
      refine ⟨fun other => ?_, ?_⟩
      · have hcount := countOf_countUp node other t.counts
        rw [h.each other] at hcount
        simpa [Trace.hear, List.countP_append, List.countP_singleton] using hcount
      · have hsum := sum_countUp node t.counts
        rw [h.total] at hsum
        simpa [Trace.hear] using hsum

theorem Counted.hear_all {t : Trace} (h : t.Counted) (events : List Event) :
    (events.foldl Trace.hear t).Counted := by
  induction events generalizing t with
  | nil => exact h
  | cons e events ih => exact ih (h.hear e)

/-! ## Passes heard -/

/-- What a trace records of a visit in a pass of a number. -/
def recordOf (number : Nat) (v : Pass.Visit α) : LayerRecord where
  pass := number
  node := v.layer.id
  kind := v.layer.kind
  dims := v.output.dims.map fun n : Nat => (n : Int)
  elementType := .text v.output.typeName

/-- What it records of passes that are numbered from some number on. -/
def recordsFrom (first : Nat) (heard : List (Pass α)) : List LayerRecord :=
  (heard.zipIdx first).flatMap fun (p, number) => p.visits.map (recordOf number)

/-- A trace has recorded these passes and nothing else, and numbered them from one. -/
structure Holds (t : Trace) (heard : List (Pass α)) : Prop where
  passes : t.passes = heard.length
  trainingPasses : t.trainingPasses = heard.countP (·.mode.training)
  records : t.records = recordsFrom 1 heard

theorem hear_outputs (visits : List (Pass.Visit α)) (t : Trace) :
    let heard := (visits.map Pass.eventOf).foldl hear t
    heard.active = t.active ∧ heard.passes = t.passes ∧ heard.trainingPasses = t.trainingPasses ∧
      heard.records = t.records ++ visits.map (recordOf t.passes) := by
  induction visits generalizing t with
  | nil => simp
  | cons v visits ih =>
      obtain ⟨hactive, hpasses, htraining, hrecords⟩ := ih (t.hear (Pass.eventOf v))
      refine ⟨hactive, hpasses, htraining, ?_⟩
      rw [List.map_cons, List.foldl_cons, hrecords]
      simp [hear, Pass.eventOf, recordOf]

theorem hear_pass (p : Pass α) (t : Trace) :
    let heard := p.events.foldl hear t
    heard.active = t.active ∧ heard.passes = t.passes + 1 ∧
      heard.trainingPasses = t.trainingPasses + (if p.mode.training then 1 else 0) ∧
      heard.records = t.records ++ p.visits.map (recordOf (t.passes + 1)) := by
  have hevents : p.events.foldl hear t =
      (p.visits.map Pass.eventOf).foldl hear (t.hear (.passStart p.mode.training)) := by
    rw [Pass.events, List.cons_append, List.foldl_cons, List.foldl_append]
    -- the end of a pass leaves no mark
    cases p.fault? <;> rfl
  rw [hevents]
  exact hear_outputs p.visits (t.hear (.passStart p.mode.training))

theorem Holds.hear {t : Trace} {heard : List (Pass α)} (h : t.Holds heard) (p : Pass α) :
    (p.events.foldl Trace.hear t).Holds (heard ++ [p]) := by
  obtain ⟨-, hpasses, htraining, hrecords⟩ := hear_pass p t
  refine ⟨?_, ?_, ?_⟩
  · rw [hpasses, h.passes, List.length_append, List.length_singleton]
  · rw [htraining, h.trainingPasses, List.countP_append, List.countP_singleton]
  · rw [hrecords, h.records, h.passes, recordsFrom, recordsFrom, List.zipIdx_append,
      List.flatMap_append]
    simp [Nat.add_comm]

/-! ## The axes of a pass -/

theorem recordsFrom_cons (first : Nat) (p : Pass α) (heard : List (Pass α)) :
    recordsFrom first (p :: heard) =
      p.visits.map (recordOf first) ++ recordsFrom (first + 1) heard := rfl

theorem le_of_mem_recordsFrom {first : Nat} {heard : List (Pass α)} {r : LayerRecord}
    (h : r ∈ recordsFrom first heard) : first ≤ r.pass := by
  obtain ⟨⟨p, number⟩, hmem, hr⟩ := List.mem_flatMap.mp h
  obtain ⟨v, -, rfl⟩ := List.mem_map.mp hr
  exact List.le_snd_of_mem_zipIdx hmem

/-- Each pass has the records of its own number. -/
theorem filter_recordsFrom {heard : List (Pass α)} {k : Nat} {p : Pass α}
    (hp : heard[k]? = some p) (first : Nat) :
    (recordsFrom first heard).filter (·.pass == first + k) =
      p.visits.map (recordOf (first + k)) := by
  induction heard generalizing first k with
  | nil => cases hp
  | cons q heard ih =>
      rw [recordsFrom_cons, List.filter_append]
      cases k with
      | zero =>
          obtain rfl := Option.some.inj hp
          have hown : (q.visits.map (recordOf first)).filter (·.pass == first) =
              q.visits.map (recordOf first) := by
            simp [List.filter_map, Function.comp_def, recordOf]
          have hlater : (recordsFrom (first + 1) heard).filter (·.pass == first) = [] := by
            rw [List.filter_eq_nil_iff]
            intro r hr
            have hle := le_of_mem_recordsFrom hr
            rw [beq_iff_eq]
            omega
          rw [Nat.add_zero, hown, hlater, List.append_nil]
      | succ k =>
          have hother : (q.visits.map (recordOf first)).filter (·.pass == first + (k + 1)) = [] := by
            simp [List.filter_map, Function.comp_def, recordOf]
          have hlater := ih hp (first + 1)
          rw [Nat.add_assoc, Nat.add_comm 1 k] at hlater
          rw [hother, List.nil_append, hlater]

/-- A trace tells the axes of what the layers gave in a pass, one layer after the other. -/
theorem Holds.shapes {t : Trace} {heard : List (Pass α)} (h : t.Holds heard) {k : Nat}
    {p : Pass α} (hp : heard[k]? = some p) (hids : (p.visits.map (·.layer.id)).Nodup) :
    t.shapes (.int (k + 1)) =
      p.visits.map fun v => (v.layer.id, v.output.dims.map fun n : Nat => (n : Int)) := by
  have hnumber : ∀ r : LayerRecord,
      (Value.int r.pass).equal false (t.numbered (.int (k + 1))) = (r.pass == 1 + k) := by
    intro r
    change (Value.int r.pass).equal false (.int (k + 1)) = _
    rw [Value.equal_int, Bool.eq_iff_iff, beq_iff_eq, beq_iff_eq]
    omega
  have hrecords : (t.records.filter fun r =>
      (Value.int r.pass).equal false (t.numbered (.int (k + 1)))) =
        p.visits.map (recordOf (1 + k)) := by
    simp only [hnumber, h.records, filter_recordsFrom hp]
  have hnodes : (p.visits.map (recordOf (1 + k))).map (·.node) = p.visits.map (·.layer.id) := by
    rw [List.map_map]
    rfl
  rw [Trace.shapes]
  simp only [hrecords, hnodes, eraseDups_eq_self hids]
  rw [List.filterMap_map]
  conv_rhs => rw [← List.filterMap_eq_map]
  refine List.filterMap_congr fun v hv => ?_
  have hfind : (p.visits.map (recordOf (1 + k))).reverse.find? (·.node == v.layer.id) =
      some (recordOf (1 + k) v) := by
    refine find?_of_unique (List.mem_reverse.mpr (List.mem_map_of_mem hv)) (beq_self_eq_true _) ?_
    intro r hr hnode
    obtain ⟨w, hw, rfl⟩ := List.mem_map.mp (List.mem_reverse.mp hr)
    rw [List.inj_on_of_nodup_map hids hw hv (eq_of_beq hnode)]
  rw [Function.comp_apply, hfind]
  rfl

end Trace

/-! ## Who hears -/

namespace Audience

variable {a : Audience} {i j : Nat}

theorem mem_join {l l' : Listener} :
    l' ∈ (a.join l).listeners ↔ l' = l ∨ l' ∈ a.listeners := by
  rw [join]
  split
  · rename_i hmem
    have hmem : l ∈ a.listeners := by simpa using hmem
    exact ⟨.inr, fun h => h.elim (fun h => h ▸ hmem) id⟩
  · simp [or_comm]

theorem nodup_join (h : a.listeners.Nodup) (l : Listener) : (a.join l).listeners.Nodup := by
  rw [join]
  split
  · exact h
  · rename_i hmem
    have hmem : l ∉ a.listeners := by simpa using hmem
    exact List.nodup_append.mpr ⟨h, List.nodup_singleton l,
      fun x hx y hy hxy => hmem (List.mem_singleton.mp hy ▸ hxy ▸ hx)⟩

theorem traces_join (l : Listener) : (a.join l).traces = a.traces := by
  rw [join]
  split <;> rfl

/-- A trace that is changed, and all others, which stay. -/
theorem getD_modify (traces : List Trace) (f : Trace → Trace) (hi : i < traces.length) :
    (traces.modify j f).getD i Trace.fresh =
      if j = i then f (traces.getD i Trace.fresh) else traces.getD i Trace.fresh := by
  simp only [List.getD_eq_getElem?_getD, List.getElem?_modify, List.getElem?_eq_getElem hi]
  split <;> rfl

theorem foldl_tell (e : Event) (ls : List Listener) (a : Audience) :
    (ls.foldl (tell e) a).listeners = a.listeners ∧
      (ls.foldl (tell e) a).traces.length = a.traces.length := by
  induction ls generalizing a with
  | nil => exact ⟨rfl, rfl⟩
  | cons l ls ih =>
      obtain ⟨hlisteners, hlength⟩ := ih (a.tell e l)
      cases l with
      | trace j => exact ⟨hlisteners, hlength.trans (List.length_modify ..)⟩
      | other n => exact ⟨hlisteners, hlength⟩

/-- Of listeners who stand in a list once, each trace hears an event once. -/
theorem foldl_tell_trace (e : Event) {ls : List Listener} (hnodup : ls.Nodup)
    (hi : i < a.traces.length) : (ls.foldl (tell e) a).trace i =
      if .trace i ∈ ls then (a.trace i).hear e else a.trace i := by
  induction ls generalizing a with
  | nil => rfl
  | cons l ls ih =>
      obtain ⟨hnew, hrest⟩ := List.nodup_cons.mp hnodup
      cases l with
      | other n =>
          have htold := @ih (a.tell e (.other n)) hrest hi
          rw [List.foldl_cons, htold]
          simp [tell]
      | trace j =>
          have hlength : i < (a.tell e (.trace j)).traces.length := by
            simpa [tell] using hi
          have htold : (a.tell e (.trace j)).trace i =
              if j = i then (a.trace i).hear e else a.trace i := getD_modify a.traces _ hi
          rw [List.foldl_cons, ih hrest hlength, htold]
          by_cases hij : j = i
          · subst hij
            simp [hnew]
          · simp [hij, Ne.symm hij]

theorem hear_all (events : List Event) (a : Audience) :
    (events.foldl hear a).listeners = a.listeners ∧
      (events.foldl hear a).traces.length = a.traces.length := by
  induction events generalizing a with
  | nil => exact ⟨rfl, rfl⟩
  | cons e events ih =>
      obtain ⟨hlisteners, hlength⟩ := ih (a.hear e)
      obtain ⟨hsame, hsize⟩ := foldl_tell e a.listeners a
      exact ⟨hlisteners.trans hsame, hlength.trans hsize⟩

/-- A trace that listens hears everything, another one nothing. -/
theorem hear_all_trace (events : List Event) {a : Audience} (hnodup : a.listeners.Nodup)
    (hi : i < a.traces.length) : (events.foldl hear a).trace i =
      if .trace i ∈ a.listeners then events.foldl Trace.hear (a.trace i) else a.trace i := by
  induction events generalizing a with
  | nil => simp
  | cons e events ih =>
      obtain ⟨hlisteners, hlength⟩ := foldl_tell e a.listeners a
      have hstep : (a.hear e).trace i =
          if .trace i ∈ a.listeners then (a.trace i).hear e else a.trace i :=
        foldl_tell_trace e hnodup hi
      change (a.hear e).listeners = _ at hlisteners
      change (a.hear e).traces.length = _ at hlength
      rw [List.foldl_cons, ih (hlisteners ▸ hnodup) (hlength ▸ hi), hlisteners, hstep]
      split <;> rfl

end Audience

/-! ## Histories -/

/-- What is done with a model and a number of traces of it: a trace is started or stopped, another
listener joins or leaves, or a pass runs. -/
inductive Deed (α : Type) (count : Nat) where
  | start (i : Fin count)
  | stop (i : Fin count)
  | join (n : Nat)
  | leave (n : Nat)
  | forward (f : Forward α)

namespace Deed

variable {count : Nat}

/-- Is a trace active after a history? The latest deed comes first. -/
def active (i : Fin count) : List (Deed α count) → Bool
  | [] => false
  | .start j :: past => i == j || active i past
  | .stop j :: past => i != j && active i past
  | _ :: past => active i past

/-- Does another listener listen after a history? -/
def joined (n : Nat) : List (Deed α count) → Bool
  | [] => false
  | .join k :: past => n == k || joined n past
  | .leave k :: past => n != k && joined n past
  | _ :: past => joined n past

/-- The passes that ran while a trace was active, since it was last started while it was not. -/
def heard (i : Fin count) : List (Deed α count) → List (Forward α)
  | [] => []
  | .start j :: past => if i = j ∧ active i past = false then [] else heard i past
  | .forward f :: past => heard i past ++ if active i past then [f] else []
  | _ :: past => heard i past

/-- Who listens after a history. -/
def Listens (past : List (Deed α count)) : Listener → Prop
  | .trace j => ∃ i : Fin count, i.val = j ∧ active i past = true
  | .other n => joined n past = true

variable {past : List (Deed α count)} {l : Listener} {i : Fin count} {n : Nat}

theorem listens_trace : Listens past (.trace i) ↔ active i past = true := by
  refine ⟨?_, fun h => ⟨i, rfl, h⟩⟩
  rintro ⟨k, hk, h⟩
  exact Fin.ext hk ▸ h

theorem listens_start : Listens (.start i :: past) l ↔ l = .trace i ∨ Listens past l := by
  cases l with
  | other k => simp [Listens, joined]
  | trace j =>
      simp only [Listens, active, Bool.or_eq_true, beq_iff_eq, Listener.trace.injEq]
      constructor
      · rintro ⟨k, rfl, rfl | h⟩
        · exact .inl rfl
        · exact .inr ⟨k, rfl, h⟩
      · rintro (rfl | ⟨k, rfl, h⟩)
        · exact ⟨i, rfl, .inl rfl⟩
        · exact ⟨k, rfl, .inr h⟩

theorem listens_stop : Listens (.stop i :: past) l ↔ l ≠ .trace i ∧ Listens past l := by
  cases l with
  | other k => simp [Listens, joined]
  | trace j =>
      simp only [Listens, active, Bool.and_eq_true, bne_iff_ne, ne_eq, Listener.trace.injEq]
      constructor
      · rintro ⟨k, rfl, hne, h⟩
        exact ⟨fun heq => hne (Fin.ext heq), k, rfl, h⟩
      · rintro ⟨hne, k, rfl, h⟩
        exact ⟨k, rfl, fun heq => hne (heq ▸ rfl), h⟩

theorem listens_join : Listens (.join n :: past) l ↔ l = .other n ∨ Listens past l := by
  cases l <;> simp [Listens, joined, active]

theorem listens_leave : Listens (.leave n :: past) l ↔ l ≠ .other n ∧ Listens past l := by
  cases l <;> simp [Listens, joined, active]

theorem listens_forward {f : Forward α} : Listens (.forward f :: past) l ↔ Listens past l := by
  cases l <;> exact .rfl

end Deed

variable [Scalar α] {count : Nat}

/-- What a history says of a trace. -/
structure Trace.Kept (i : Fin count) (past : List (Deed α count)) (t : Trace) : Prop where
  active : t.active = Deed.active i past
  counted : t.Counted
  holds : t.Holds ((Deed.heard i past).map Forward.pass)

namespace Trace.Kept

variable {i k : Fin count} {past : List (Deed α count)} {t : Trace}

theorem start (h : t.Kept k past) (i : Fin count) :
    Kept k (.start i :: past) (if k = i then t.start else t) := by
  by_cases hk : k = i
  · subst hk
    rw [if_pos rfl, Trace.start, h.active]
    split
    · rename_i hactive
      refine ⟨?_, h.counted, ?_⟩
      · rw [h.active, Deed.active, hactive, Bool.or_true]
      · rw [Deed.heard, hactive, if_neg (by simp)]
        exact h.holds
    · rename_i hidle
      refine ⟨?_, ⟨fun _ => rfl, rfl⟩, ?_⟩
      · rw [Deed.active, BEq.rfl, Bool.true_or]
      · rw [Deed.heard, if_pos ⟨rfl, by simpa using hidle⟩]
        exact ⟨rfl, rfl, rfl⟩
  · rw [if_neg hk]
    refine ⟨?_, h.counted, ?_⟩
    · rw [h.active, Deed.active, beq_eq_false_iff_ne.mpr hk, Bool.false_or]
    · rw [Deed.heard, if_neg fun h => hk h.1]
      exact h.holds

theorem stop (h : t.Kept k past) (i : Fin count) :
    Kept k (.stop i :: past) (if k = i then t.stop else t) := by
  by_cases hk : k = i
  · subst hk
    rw [if_pos rfl]
    refine ⟨?_, ⟨h.counted.each, h.counted.total⟩,
      ⟨h.holds.passes, h.holds.trainingPasses, h.holds.records⟩⟩
    rw [Deed.active, bne_self_eq_false, Bool.false_and]
    rfl
  · rw [if_neg hk]
    refine ⟨?_, h.counted, h.holds⟩
    rw [h.active, Deed.active, bne_iff_ne.mpr hk, Bool.true_and]

theorem forward (h : t.Kept k past) (f : Forward α) :
    Kept k (.forward f :: past)
      (if Deed.active k past then f.pass.events.foldl Trace.hear t else t) := by
  split
  · rename_i hactive
    obtain ⟨hsame, -⟩ := hear_pass f.pass t
    refine ⟨hsame.trans h.active, h.counted.hear_all f.pass.events, ?_⟩
    rw [Deed.heard, if_pos hactive, List.map_append]
    exact h.holds.hear f.pass
  · rename_i hidle
    refine ⟨h.active, h.counted, ?_⟩
    rw [Deed.heard, if_neg hidle, List.append_nil]
    exact h.holds

end Trace.Kept

namespace Audience

/-- The audience after a deed. -/
def step (a : Audience) : Deed α count → Audience
  | .start i => a.start i
  | .stop i => a.stop i
  | .join n => a.join (.other n)
  | .leave n => a.leave (.other n)
  | .forward f => a.attend f.pass

/-- The audience after a history, the latest deed first. -/
def after : List (Deed α count) → Audience
  | [] => silent count
  | d :: past => (after past).step d

/-- What a history says of an audience. -/
structure Told (past : List (Deed α count)) (a : Audience) : Prop where
  length : a.traces.length = count
  nodup : a.listeners.Nodup
  listens : ∀ l, l ∈ a.listeners ↔ Deed.Listens past l
  kept : ∀ i : Fin count, (a.trace i).Kept i past

namespace Told

variable {a : Audience} {past : List (Deed α count)}

theorem lt_length (h : a.Told past) (k : Fin count) : k.val < a.traces.length := by
  rw [h.length]
  exact k.isLt

theorem start (h : a.Told past) (i : Fin count) : (a.start i).Told (.start i :: past) := by
  have htrace : ∀ k : Fin count,
      (a.start i).trace k = if k = i then (a.trace k).start else a.trace k := by
    intro k
    rw [Audience.start]
    split
    · rename_i hactive
      split
      · rename_i hk
        rw [hk, Trace.start, if_pos hactive]
      · rfl
    · rw [trace, traces_join, getD_modify a.traces _ (h.lt_length k)]
      simp only [Fin.ext_iff, eq_comm]
      rfl
  have hlisteners : (a.start i).listeners.Nodup ∧
      ∀ l, l ∈ (a.start i).listeners ↔ l = .trace i ∨ l ∈ a.listeners := by
    rw [Audience.start]
    split
    · rename_i hactive
      have hmem : .trace i.val ∈ a.listeners :=
        (h.listens _).mpr (Deed.listens_trace.mpr ((h.kept i).active ▸ hactive))
      exact ⟨h.nodup, fun l => ⟨.inr, fun hl => hl.elim (fun hl => hl ▸ hmem) id⟩⟩
    · refine ⟨nodup_join ?_ _, fun l => mem_join⟩
      exact h.nodup
  refine ⟨?_, hlisteners.1, fun l => ?_, fun k => ?_⟩
  · rw [Audience.start]
    split
    · exact h.length
    · rw [traces_join, List.length_modify, h.length]
  · rw [hlisteners.2, Deed.listens_start, h.listens]
  · rw [htrace]
    exact (h.kept k).start i

theorem stop (h : a.Told past) (i : Fin count) : (a.stop i).Told (.stop i :: past) := by
  have hidle : (a.trace i).active = false → .trace i.val ∉ a.listeners := by
    intro hidle hmem
    rw [(h.kept i).active, Deed.listens_trace.mp ((h.listens _).mp hmem)] at hidle
    cases hidle
  have htrace : ∀ k : Fin count,
      (a.stop i).trace k = if k = i then (a.trace k).stop else a.trace k := by
    intro k
    rw [Audience.stop]
    split
    · rw [leave, trace, getD_modify a.traces _ (h.lt_length k)]
      simp only [Fin.ext_iff, eq_comm]
      rfl
    · rename_i hactive
      split
      · rename_i hk
        have hsame : (a.trace i).active = false := by simpa using hactive
        rw [hk, Trace.stop, ← hsame]
      · rfl
  have hlisteners : (a.stop i).listeners = a.listeners.erase (.trace i) := by
    rw [Audience.stop]
    split
    · rfl
    · rename_i hactive
      exact (List.erase_of_not_mem (hidle (by simpa using hactive))).symm
  refine ⟨?_, ?_, fun l => ?_, fun k => ?_⟩
  · rw [Audience.stop]
    split
    · exact (List.length_modify ..).trans h.length
    · exact h.length
  · rw [hlisteners]
    exact h.nodup.erase _
  · rw [hlisteners, h.nodup.mem_erase_iff, Deed.listens_stop, h.listens]
  · rw [htrace]
    exact (h.kept k).stop i

theorem join (h : a.Told past) (n : Nat) : (a.join (.other n)).Told (.join n :: past) := by
  refine ⟨?_, nodup_join h.nodup _, fun l => ?_, fun k => ?_⟩
  · rw [traces_join, h.length]
  · rw [mem_join, Deed.listens_join, h.listens]
  · rw [trace, traces_join]
    exact ⟨(h.kept k).active, (h.kept k).counted, (h.kept k).holds⟩

theorem leave (h : a.Told past) (n : Nat) : (a.leave (.other n)).Told (.leave n :: past) := by
  refine ⟨h.length, h.nodup.erase _, fun l => ?_, fun k => ?_⟩
  · rw [Audience.leave, h.nodup.mem_erase_iff, Deed.listens_leave, h.listens]
  · exact ⟨(h.kept k).active, (h.kept k).counted, (h.kept k).holds⟩

theorem forward (h : a.Told past) (f : Forward α) :
    (a.attend f.pass).Told (.forward f :: past) := by
  obtain ⟨hlisteners, hlength⟩ := hear_all f.pass.events a
  refine ⟨hlength.trans h.length, hlisteners ▸ h.nodup, fun l => ?_, fun k => ?_⟩
  · rw [Deed.listens_forward, ← h.listens, attend, hlisteners]
  · have htrace := hear_all_trace f.pass.events h.nodup (h.lt_length k)
    simp only [h.listens, Deed.listens_trace] at htrace
    rw [attend, htrace]
    exact (h.kept k).forward f

theorem step (h : a.Told past) (d : Deed α count) : (a.step d).Told (d :: past) := by
  cases d with
  | start i => exact h.start i
  | stop i => exact h.stop i
  | join n => exact h.join n
  | leave n => exact h.leave n
  | forward f => exact h.forward f

end Told

theorem after_told (past : List (Deed α count)) : (after past).Told past := by
  induction past with
  | nil =>
      have htrace : ∀ i : Fin count, (silent count).trace i = Trace.fresh := by
        intro i
        simp [silent, trace]
      refine ⟨List.length_replicate, List.nodup_nil, fun l => ?_, fun i => ?_⟩
      · cases l <;> simp [after, silent, Deed.Listens, Deed.active, Deed.joined]
      · rw [after, htrace]
        exact ⟨rfl, ⟨fun _ => rfl, rfl⟩, ⟨rfl, rfl, rfl⟩⟩
  | cons d past ih => exact ih.step d

/-- Whatever is done with a model and traces of it: its listeners are the active traces and whoever
else has joined, each once. A trace holds the records of the passes that it has heard since it was
last started anew, numbered from one, and counts them; of a pass that succeeds it tells the axes of
every output, in the order of the layers. A pass that fails tells of its start and of the layers
before the one that failed, and of no end. -/
theorem after_recorded (past : List (Deed α count)) :
    (after past).listeners.Nodup ∧ (∀ l, l ∈ (after past).listeners ↔ Deed.Listens past l) ∧
      (∀ i : Fin count,
        let t := (after past).trace i
        let heard := Deed.heard i past
        t.active = Deed.active i past ∧ t.passes = heard.length ∧
          t.trainingPasses = heard.countP (·.mode.training) ∧
          t.records = Trace.recordsFrom 1 (heard.map Forward.pass) ∧
          (∀ node, Trace.countOf t.counts node = t.records.countP (·.node == node)) ∧
          (t.counts.map (·.2)).sum = t.records.length ∧
          ∀ (k : Nat) f y, heard[k]? = some f → f.model.Layered → f.pass.output f.model = .ok y →
            f.pass.visits.map (·.layer) = f.model.layers ∧
              t.shapes (.int (k + 1)) = f.pass.visits.map fun v =>
                (v.layer.id, v.output.dims.map fun n : Nat => (n : Int))) ∧
      ∀ f : Forward α, (∀ a, f.announce a = (a.attend f.pass, f.pass)) ∧
        (∀ y, f.model.Layered → f.pass.output f.model = .ok y →
          f.pass.events = .passStart f.mode.training ::
            (f.pass.visits.map Pass.eventOf ++ [.passEnd f.model.layers.length])) ∧
        ∀ fault, f.model.Layered → f.pass.output f.model = .error fault →
          ∃ L later g g', f.model.layers = f.pass.visits.map (·.layer) ++ L :: later ∧
            (Pass.visit f.model f.fed f.mode f.pass.visits L).run g = (.error fault, g') ∧
            f.pass.events = .passStart f.mode.training :: f.pass.visits.map Pass.eventOf := by
  have htold := after_told past
  refine ⟨htold.nodup, htold.listens, fun i => ?_,
    fun f => ⟨f.announce_eq, fun y => Forward.events_of_ok, fun fault => Forward.events_of_error⟩⟩
  obtain ⟨hactive, hcounted, hholds⟩ := htold.kept i
  refine ⟨hactive, ?_, ?_, hholds.records, hcounted.each, hcounted.total, ?_⟩
  · rw [hholds.passes, List.length_map]
  · rw [hholds.trainingPasses, List.countP_map]
    rfl
  · intro k f y hk hm hy
    have hpass : ((Deed.heard i past).map Forward.pass)[k]? = some f.pass := by
      rw [List.getElem?_map, hk, Option.map_some]
    exact ⟨(Forward.layers_of_ok hy).2, hholds.shapes hpass (Forward.ids_of_ok hm hy)⟩

end Audience

/-! ### A pass that fails between others -/

/-- An activation on the input of the model, beside a layer that is fed from labels. -/
def sided : Graph where
  nodes := [⟨"act", "Activation", [], .null, false, .null, []⟩,
    ⟨"data", "DataLoader", [], .null, false, .null, []⟩,
    ⟨"flat", "Flatten", [], .null, false, .null, []⟩]
  connections := [⟨.null, "data", .text "labels", "flat", .text "input", .null, .null, []⟩]

namespace Forward

/-- A pass on samples and labels. -/
def labelled (m : Model Float) (training : Bool) : Forward Float :=
  ⟨m, .named [(modelInput, .real (Tensor.filled [3, 2] 1)),
    ("data.labels", .whole (Tensor.filled [3, 1] 0))], ⟨training, true⟩, ⟨0⟩⟩

/-- A pass on samples alone. -/
def unlabelled (m : Model Float) : Forward Float :=
  ⟨m, .single (.real (Tensor.filled [3, 2] 1)), ⟨false, true⟩, ⟨0⟩⟩

end Forward

/-- Two traces that overlap while another listener joins; the pass in the middle lacks labels. The
latest deed comes first. -/
def overlapping (m : Model Float) : List (Deed Float 2) :=
  [.forward (.labelled m true), .stop 0, .start 0, .forward (.unlabelled m), .join 7, .start 1,
    .forward (.labelled m false), .start 0]

theorem after_recorded_overlapping : ∃ m : Model Float,
    (compile Stock.catalog (.int 0) sided (some (.sizes (.list [.int 2])))).1 = .ok m ∧
    m.Layered ∧ (∃ y, (Forward.labelled m true).pass.output m = .ok y) ∧
    (∃ fault, (Forward.unlabelled m).pass.output m = .error fault) ∧
    let a := Audience.after (overlapping m)
    a.listeners.Nodup ∧ .trace 0 ∉ a.listeners ∧ .trace 1 ∈ a.listeners ∧ .other 7 ∈ a.listeners ∧
      (a.trace 0).passes = 2 ∧ (a.trace 1).passes = 2 ∧ (a.trace 1).trainingPasses = 1 ∧
      (a.trace 1).shapes (.int 2) = [("act", [3, 2]), ("flat", [3, 1])] ∧
      (Forward.unlabelled m).pass.events.length = 2 := by
  have hrun : ((compile Stock.catalog (.int 0) sided
      (some (.sizes (.list [.int 2])))).1.toOption.map fun m : Model Float =>
        (((Forward.labelled m true).pass.output m).isOk,
          ((Forward.unlabelled m).pass.output m).isOk,
          (Forward.unlabelled m).pass.visits.length)) = some (true, false, 1) := by
    decide +kernel
  have hrun' : ((compile Stock.catalog (.int 0) sided
      (some (.sizes (.list [.int 2])))).1.toOption.map fun m : Model Float =>
        (Forward.labelled m true).pass.visits.map fun v =>
          (v.layer.id, v.output.dims.map fun n : Nat => (n : Int))) =
        some [("act", [3, 2]), ("flat", [3, 1])] := by
    decide +kernel
  obtain ⟨m, hm, houtcome⟩ := Option.map_eq_some_iff.mp hrun
  rw [hm, Option.map_some, Option.some.injEq] at hrun'
  simp only [Prod.mk.injEq] at houtcome
  obtain ⟨hgives, hfails, hvisits⟩ := houtcome
  have hlayered : m.Layered := Compilation.compile_layered (toOption_eq_some.mp hm) rfl
  obtain ⟨hnodup, hlistens, htraces, hforward⟩ := Audience.after_recorded (overlapping m)
  obtain ⟨y, hlabelled⟩ : ∃ y, (Forward.labelled m true).pass.output m = .ok y := by
    cases h : (Forward.labelled m true).pass.output m with
    | ok y => exact ⟨y, rfl⟩
    | error fault =>
        rw [h] at hgives
        cases hgives
  obtain ⟨fault, hunlabelled⟩ : ∃ fault, (Forward.unlabelled m).pass.output m = .error fault := by
    cases h : (Forward.unlabelled m).pass.output m with
    | error fault => exact ⟨fault, rfl⟩
    | ok y =>
        rw [h] at hfails
        cases hfails
  refine ⟨m, toOption_eq_some.mp hm, hlayered, ⟨y, hlabelled⟩, ⟨fault, hunlabelled⟩, hnodup, ?_,
    (hlistens _).mpr ⟨1, rfl, rfl⟩, (hlistens _).mpr rfl, (htraces 0).2.1, (htraces 1).2.1,
    (htraces 1).2.2.1, ?_, ?_⟩
  · intro hmem
    obtain ⟨i, hi, hactive⟩ := (hlistens _).mp hmem
    obtain rfl : i = 0 := Fin.ext hi
    cases hactive
  · have hshapes := ((htraces 1).2.2.2.2.2.2 1 (.labelled m true) y rfl hlayered hlabelled).2
    exact hshapes.trans hrun'
  · obtain ⟨L, later, g, g', -, -, hevents⟩ :=
      (hforward (.unlabelled m)).2.2 fault hlayered hunlabelled
    rw [hevents, List.length_cons, List.length_map, hvisits]

end BlockNet
