import BlockNet.Proofs.Graph.Canvas
import BlockNet.Proofs.Value.Equal

/-! # Numbers of connections

A connection without an id of its own is numbered after the count of connections. Removals lower the
count, so the number of a later connection can be that of one which is still there. Exactly the lists in
which every number is above the count of those before it can be come to. -/

namespace BlockNet

open List

/-- Does a call connect two nodes? -/
def Edit.connects : Edit → Bool
  | .connect .. => true
  | _ => false

/-- Does a call place a node, connect two nodes without naming the connection, or remove something? -/
def Edit.Numbered : Edit → Prop
  | .connect _ _ _ _ id => id = .null
  | .setParam .. => False
  | .refreshValidity _ => False
  | _ => True

namespace Snapshot

/-- The id of a connection with a number. -/
def label (k : Nat) : Value := .text ("c" ++ toString k)

/-- The ids of the connections. -/
def ids (g : Snapshot) : List Value := g.connections.map (·.id)

variable {g : Snapshot}

/-! ## Ids after a call -/

theorem ids_withNode (g : Snapshot) (n : Node) : (g.keep (g.withNode n)).2.ids <+ g.ids := by
  refine keep_of (p := fun g' => g'.ids <+ g.ids) (.refl _) fun g' m h => ?_
  rw [ids, ids, (withNode_eq_ok h).2]

theorem ids_removeNode (g : Snapshot) (id : Value) : (g.keep (g.removeNode id)).2.ids <+ g.ids := by
  refine keep_of (p := fun g' => g'.ids <+ g.ids) (.refl _) fun g' n h => ?_
  rw [ids, ids, (removeNode_eq_ok h).2]
  exact filter_sublist.map _

theorem ids_removeConnection (g : Snapshot) (id : Value) :
    (g.keep (g.removeConnection id)).2.ids <+ g.ids := by
  refine keep_of (p := fun g' => g'.ids <+ g.ids) (.refl _) fun g' c h => ?_
  exact (removeConnection_eq_ok h).2.map _

/-- A connection that is made is numbered one above the count, and comes last. -/
theorem ids_connect (g : Snapshot) (source sourcePort target targetPort : Value) :
    (g.keep (g.connect source sourcePort target targetPort .null)).2.ids = g.ids ∧
        (g.keep (g.connect source sourcePort target targetPort .null)).1 ≠ .ok () ∨
      (g.keep (g.connect source sourcePort target targetPort .null)).2.ids =
          g.ids ++ [label (g.ids.length + 1)] ∧
        (g.keep (g.connect source sourcePort target targetPort .null)).1 = .ok () := by
  cases hmade : g.connect source sourcePort target targetPort .null with
  | error fault => exact .inl ⟨rfl, nofun⟩
  | ok result =>
      obtain ⟨-, -, hid, -, hconnections⟩ := connect_eq_ok hmade
      refine .inr ⟨?_, rfl⟩
      change result.1.ids = _
      rw [ids, ids, hconnections, map_append, length_map, map_singleton, hid]
      rfl

/-- A call connects and numbers the connection, or no id comes. -/
theorem ids_edit {e : Edit} (he : e.Numbered) (g : Snapshot) :
    (g.edit e).2.ids <+ g.ids ∧ ¬(e.connects = true ∧ (g.edit e).1 = .ok ()) ∨
      (g.edit e).2.ids = g.ids ++ [label (g.ids.length + 1)] ∧
        e.connects = true ∧ (g.edit e).1 = .ok () := by
  cases e with
  | place payload =>
      refine .inl ⟨?_, fun h => Bool.false_ne_true h.1⟩
      rw [edit]
      cases Node.ofValue payload with
      | error fault => exact .refl _
      | ok n => exact ids_withNode g n
  | addNode n => exact .inl ⟨ids_withNode g n, fun h => Bool.false_ne_true h.1⟩
  | connect source sourcePort target targetPort id =>
      obtain rfl : id = .null := he
      rcases ids_connect g source sourcePort target targetPort with ⟨hids, hfail⟩ | ⟨hids, hok⟩
      · exact .inl ⟨hids ▸ .refl _, fun h => hfail h.2⟩
      · exact .inr ⟨hids, rfl, hok⟩
  | removeNode id => exact .inl ⟨ids_removeNode g id, fun h => Bool.false_ne_true h.1⟩
  | removeConnection id => exact .inl ⟨ids_removeConnection g id, fun h => Bool.false_ne_true h.1⟩
  | setParam catalog id name value => cases he
  | refreshValidity catalog => cases he

theorem after_concat (past : List Edit) (e : Edit) :
    after (past ++ [e]) = ((after past).edit e).2 := by
  rw [after, foldl_append]
  rfl

/-! ## Numbers that are come to -/

/-- Every number is above the count of those before it, with a count at the start. -/
def Ahead (n : Nat) (ks : List Nat) : Prop := ∀ i k, ks[i]? = some k → n + i < k

/-- What is left of numbers still is above the lower counts. -/
theorem Ahead.sublist {n : Nat} {ks ls : List Nat} (hls : Ahead n ls) (h : ks <+ ls) :
    Ahead n ks := by
  induction h generalizing n with
  | slnil => exact hls
  | cons l _ ih =>
      have hrest : Ahead (n + 1) _ := ih fun i k hk => by
        have := hls (i + 1) k hk
        omega
      intro i k hk
      have := hrest i k hk
      omega
  | cons_cons l _ ih =>
      have hrest : Ahead (n + 1) _ := ih fun i k hk => by
        have := hls (i + 1) k hk
        omega
      rintro (_ | i) k hk
      · exact hls 0 k hk
      · have := hrest i k hk
        omega

theorem Ahead.concat {ks : List Nat} (hks : Ahead 0 ks) {k : Nat} (hk : ks.length < k) :
    Ahead 0 (ks ++ [k]) := by
  intro i l hl
  rcases Nat.lt_trichotomy i ks.length with hi | rfl | hi
  · exact hks i l (by rwa [getElem?_append_left hi] at hl)
  · rw [getElem?_concat_length, Option.some.injEq] at hl
    omega
  · rw [getElem?_eq_none (by simp; omega)] at hl
    cases hl

/-- Ids are the labels of numbers that are above the count of those before them. -/
theorem exists_numbers {edits : List Edit} (h : ∀ e ∈ edits, e.Numbered) :
    ∃ ks, (after edits).ids = ks.map label ∧ Ahead 0 ks := by
  induction edits using List.reverseRecOn with
  | nil => exact ⟨[], rfl, nofun⟩
  | append_singleton past e ih =>
      obtain ⟨hpast, he⟩ := forall_mem_append.mp h
      obtain ⟨ks, hks, hahead⟩ := ih hpast
      rw [after_concat]
      rcases ids_edit (he e mem_cons_self) (after past) with ⟨hsub, -⟩ | ⟨hids, -⟩
      · rw [hks] at hsub
        obtain ⟨ls, hls, hsub⟩ := sublist_map_iff.mp hsub
        exact ⟨ls, hsub, hahead.sublist hls⟩
      · refine ⟨ks ++ [ks.length + 1], ?_, hahead.concat (Nat.lt_succ_self _)⟩
        rw [hids, hks, map_append, length_map]
        rfl

/-! ## Calls that come to given numbers -/

/-- A node without anything beside its id. -/
def bare (id : String) : Node := ⟨id, "", [], .null, false, .null, []⟩

/-- The call that connects a node to itself. -/
def loopCall (id : String) : Edit := .connect (.text id) .null (.text id) .null .null

/-- A loop at a node, numbered after a count. -/
def loopAt (id : String) (count : Nat) : Connection :=
  ⟨label (count + 1), id, .null, id, .null, .null, .null, []⟩

variable {id : String}

theorem edit_loopCall (hid : bare id ∈ g.nodes) : ∃ g', (g.edit (loopCall id)).2 = g' ∧
    g'.nodes = g.nodes ∧ g'.connections = g.connections ++ [loopAt id g.connections.length] := by
  have hplaced : g.placed (.text id) = .ok id := placed_of_mem hid
  rw [loopCall, edit, connect, hplaced]
  exact ⟨_, rfl, rfl, rfl⟩

/-- Loops that are made one after the other stand behind the others, all at their node. -/
theorem exists_loops (hid : bare id ∈ g.nodes) (count : Nat) : ∃ g' loops,
    (replicate count (loopCall id)).foldl (fun g e => (g.edit e).2) g = g' ∧
      g'.nodes = g.nodes ∧ g'.connections = g.connections ++ loops ∧ loops.length = count ∧
        ∀ c ∈ loops, c.touches id = true := by
  induction count generalizing g with
  | zero => exact ⟨g, [], rfl, rfl, by simp, rfl, nofun⟩
  | succ count ih =>
      obtain ⟨g₁, hcall, hnodes₁, hconnections₁⟩ := edit_loopCall hid
      obtain ⟨g₂, loops, hrun, hnodes₂, hconnections₂, hlength, htouch⟩ := ih (hnodes₁ ▸ hid)
      refine ⟨g₂, loopAt id g.connections.length :: loops, ?_, hnodes₂.trans hnodes₁, ?_,
        congrArg (· + 1) hlength, forall_mem_cons.mpr ⟨by simp [loopAt, Connection.touches], htouch⟩⟩
      · rw [replicate_succ, foldl_cons, hcall, hrun]
      · rw [hconnections₂, hconnections₁, append_assoc, singleton_append]

/-- Calls that raise the count by loops at a second node, number a loop at the first one, and take the
second node off again. -/
def numberCalls (count k : Nat) : List Edit :=
  .addNode (bare "spare") :: (replicate (k - 1 - count) (loopCall "spare") ++
    [loopCall "kept", .removeNode (.text "spare")])

theorem numbered_numberCalls (count k : Nat) : ∀ e ∈ numberCalls count k, e.Numbered := by
  intro e he
  simp only [numberCalls, mem_cons, mem_append, mem_replicate, not_mem_nil, or_false] at he
  rcases he with rfl | ⟨-, rfl⟩ | rfl | rfl
  · trivial
  · rfl
  · rfl
  · trivial

theorem edit_addNode {n : Node} (hn : ∀ m ∈ g.nodes, m.id ≠ n.id) :
    ∃ g', (g.edit (.addNode n)).2 = g' ∧ g'.nodes = g.nodes ++ [n] ∧
      g'.connections = g.connections := by
  rcases addNode_cases g n with ⟨⟨m, hm, hid⟩, -⟩ | ⟨-, g', hadd, hnodes, hconnections⟩
  · exact absurd hid (hn m hm)
  · rw [edit, withNode, hadd]
    exact ⟨g', rfl, hnodes, hconnections⟩

theorem edit_removeNode (hid : bare id ∈ g.nodes) : ∃ g', (g.edit (.removeNode (.text id))).2 = g' ∧
    g'.nodes = g.nodes.filter (·.id != id) ∧
      g'.connections = g.connections.filter (!·.touches id) := by
  have hnode : g.node (.text id) = .ok (bare id) := node_of_mem hid
  rw [edit, removeNode, hnode]
  exact ⟨_, rfl, rfl, rfl⟩

/-- The calls number one connection as asked for, and leave everything else. -/
theorem foldl_numberCalls {k : Nat} (hnodes : g.nodes = [bare "kept"])
    (hfree : ∀ c ∈ g.connections, c.touches "spare" = false) (hk : g.connections.length < k) :
    ∃ g', (numberCalls g.connections.length k).foldl (fun g e => (g.edit e).2) g = g' ∧
      g'.nodes = [bare "kept"] ∧ g'.connections = g.connections ++ [loopAt "kept" (k - 1)] := by
  obtain ⟨g₁, hadd, hnodes₁, hconnections₁⟩ := edit_addNode (g := g) (n := bare "spare")
    (by rw [hnodes]; decide)
  have hspare₁ : bare "spare" ∈ g₁.nodes := hnodes₁ ▸ mem_append_right _ mem_cons_self
  obtain ⟨g₂, loops, hloops, hnodes₂, hconnections₂, hlength, htouch⟩ :=
    exists_loops hspare₁ (k - 1 - g.connections.length)
  have hkept₂ : bare "kept" ∈ g₂.nodes := by
    rw [hnodes₂, hnodes₁, hnodes]
    exact mem_cons_self
  obtain ⟨g₃, hloop, hnodes₃, hconnections₃⟩ := edit_loopCall hkept₂
  have hspare₃ : bare "spare" ∈ g₃.nodes := by rwa [hnodes₃, hnodes₂]
  obtain ⟨g₄, hremove, hnodes₄, hconnections₄⟩ := edit_removeNode hspare₃
  have hcount : g₂.connections.length = k - 1 := by
    rw [hconnections₂, hconnections₁, length_append, hlength]
    omega
  refine ⟨g₄, ?_, ?_, ?_⟩
  · rw [numberCalls, foldl_cons, hadd, foldl_append, hloops, foldl_cons, hloop, foldl_cons, hremove,
      foldl_nil]
  · rw [hnodes₄, hnodes₃, hnodes₂, hnodes₁, hnodes]
    rfl
  · have hloops₄ : loops.filter (!·.touches "spare") = [] :=
      filter_eq_nil_iff.mpr fun c hc => by simp [htouch c hc]
    have hfree₄ : g.connections.filter (!·.touches "spare") = g.connections :=
      filter_eq_self.mpr fun c hc => by simp [hfree c hc]
    rw [hconnections₄, hconnections₃, hcount, hconnections₂, hconnections₁, filter_append,
      filter_append, hloops₄, hfree₄, append_nil]
    rfl

/-- Every list of numbers that are above the count of those before them is come to. -/
theorem exists_calls {ks : List Nat} (h : Ahead 0 ks) : ∃ edits : List Edit,
    (∀ e ∈ edits, e.Numbered) ∧ (after edits).ids = ks.map label := by
  have hrun : ∃ edits : List Edit, (∀ e ∈ edits, e.Numbered) ∧
      (after edits).nodes = [bare "kept"] ∧
        (after edits).connections = ks.map fun k => loopAt "kept" (k - 1) := by
    induction ks using List.reverseRecOn with
    | nil => exact ⟨[.addNode (bare "kept")], by simp [Edit.Numbered], rfl, rfl⟩
    | append_singleton ks k ih =>
        obtain ⟨edits, hnumbered, hnodes, hconnections⟩ := ih (h.sublist (sublist_append_left _ _))
        have hk : (after edits).connections.length < k := by
          have := h ks.length k getElem?_concat_length
          rw [hconnections, length_map]
          omega
        have hfree : ∀ c ∈ (after edits).connections, c.touches "spare" = false := by
          rw [hconnections, forall_mem_map]
          exact fun _ _ => rfl
        obtain ⟨g', hcalls, hnodes', hconnections'⟩ := foldl_numberCalls hnodes hfree hk
        refine ⟨edits ++ numberCalls (after edits).connections.length k, forall_mem_append.mpr
          ⟨hnumbered, numbered_numberCalls _ _⟩, ?_, ?_⟩
        · rw [after, foldl_append]
          exact hcalls ▸ hnodes'
        · rw [after, foldl_append, map_append, ← hconnections]
          exact hcalls ▸ hconnections'
  obtain ⟨edits, hnumbered, -, hconnections⟩ := hrun
  refine ⟨edits, hnumbered, ?_⟩
  rw [ids, hconnections, map_map]
  refine map_congr_left fun k hk => ?_
  obtain ⟨i, hi⟩ := getElem?_of_mem hk
  have := h i k hi
  exact congrArg label (by omega : k - 1 + 1 = k)

/-! ## Distinct ids -/

/-- Ids stay distinct unless a connection is numbered like one that is there. -/
theorem nodup_ids_iff {edits : List Edit} (h : ∀ e ∈ edits, e.Numbered) :
    (∀ past, past <+: edits → (after past).ids.Nodup) ↔
      ∀ past e, past ++ [e] <+: edits → e.connects = true → ((after past).edit e).1 = .ok () →
        label ((after past).ids.length + 1) ∉ (after past).ids := by
  have hstep : ∀ past e, past ++ [e] <+: edits → e.Numbered := fun past e hpre =>
    h e (hpre.subset (mem_append_right _ mem_cons_self))
  constructor
  · intro hnodup past e hpre hconnects hok
    have hafter := hnodup _ hpre
    rw [after_concat] at hafter
    rcases ids_edit (hstep past e hpre) (after past) with ⟨-, hnot⟩ | ⟨hids, -⟩
    · exact absurd ⟨hconnects, hok⟩ hnot
    · rw [hids, ← concat_eq_append, List.nodup_concat] at hafter
      exact hafter.1
  · intro hnew past
    induction past using List.reverseRecOn with
    | nil => exact fun _ => nodup_nil
    | append_singleton past e ih =>
        intro hpre
        have hpast := ih ((prefix_append _ _).trans hpre)
        rw [after_concat]
        rcases ids_edit (hstep past e hpre) (after past) with ⟨hsub, -⟩ | ⟨hids, hconnects, hok⟩
        · exact hpast.sublist hsub
        · rw [hids, ← concat_eq_append, List.nodup_concat]
          exact ⟨hnew past e hpre hconnects hok, hpast⟩

/-! ## Removed connections -/

/-- The connection that is removed is the first of those that carry the id. -/
theorem removeConnection_iff (hg : ∀ c ∈ g.connections, ∃ s, c.id = .text s) {id : Value}
    {c : Connection} {g' : Snapshot} : g.removeConnection id = .ok (g', c) ↔
      ∃ front back, g.connections = front ++ c :: back ∧ c.id = id ∧ (∀ d ∈ front, d.id ≠ id) ∧
        g' = { g with connections := front ++ back } := by
  have hequal : ∀ d ∈ g.connections, (d.id.equal false id = true ↔ d.id = id) := by
    intro d hd
    obtain ⟨s, hs⟩ := hg d hd
    rw [hs, Value.text_equal_iff, eq_comm]
  have herase : ∀ front back, g.connections = front ++ c :: back → c.id = id →
      (∀ d ∈ front, d.id ≠ id) → g.connections.eraseP (·.id.equal false id) = front ++ back := by
    intro front back hsplit hid hfront
    have hc := (hequal c (by simp [hsplit])).mpr hid
    have hother : ∀ d ∈ front, ¬d.id.equal false id = true := fun d hd h =>
      hfront d hd ((hequal d (by simp [hsplit, hd])).mp h)
    rw [hsplit, eraseP_append_right _ hother, eraseP_cons_of_pos (by exact hc)]
  rw [removeConnection]
  constructor
  · intro h
    split at h
    · rename_i found hfind
      obtain ⟨hmade, rfl⟩ := Prod.mk.inj (Except.ok.inj h)
      obtain ⟨hc, front, back, hsplit, hfront⟩ := find?_eq_some_iff_append.mp hfind
      have hid := (hequal found (by simp [hsplit])).mp hc
      have hother : ∀ d ∈ front, d.id ≠ id := fun d hd hd' => by
        simpa [(hequal d (by simp [hsplit, hd])).mpr hd'] using hfront d hd
      refine ⟨front, back, hsplit, hid, hother, ?_⟩
      rw [← hmade]
      simp only [herase front back hsplit hid hother]
    · cases h
  · rintro ⟨front, back, hsplit, hid, hfront, rfl⟩
    have hfind : g.connections.find? (·.id.equal false id) = some c := by
      refine find?_eq_some_iff_append.mpr ⟨(hequal c (by simp [hsplit])).mpr hid, front, back, hsplit,
        fun d hd => ?_⟩
      have hne := mt (hequal d (by simp [hsplit, hd])).mp (hfront d hd)
      simpa using hne
    rw [hfind]
    simp only [herase front back hsplit hid hfront]

/-- Members are distinct if none stands behind the first place where it stands. -/
theorem nodup_of_first {α : Type} {xs : List α}
    (h : ∀ front x back, xs = front ++ x :: back → x ∉ front → x ∉ back) : xs.Nodup := by
  induction xs with
  | nil => exact nodup_nil
  | cons x xs ih =>
      have hx : x ∉ xs := h [] x xs rfl not_mem_nil
      refine nodup_cons.mpr ⟨hx, ih fun front y back hsplit hy => ?_⟩
      refine h (x :: front) y back (by rw [hsplit, cons_append]) fun hmem => ?_
      rcases mem_cons.mp hmem with rfl | hmem
      · exact hx (hsplit ▸ mem_append_right _ mem_cons_self)
      · exact hy hmem

/-- Ids are distinct just when no removed id is still there. -/
theorem nodup_iff_removed (hg : ∀ c ∈ g.connections, ∃ s, c.id = .text s) : g.ids.Nodup ↔
    ∀ id c g', g.removeConnection id = .ok (g', c) → id ∉ g'.ids := by
  constructor
  · intro hnodup id c g' h
    obtain ⟨front, back, hsplit, rfl, -, rfl⟩ := (removeConnection_iff hg).mp h
    rw [ids, hsplit, map_append, map_cons, nodup_middle, nodup_cons] at hnodup
    rw [ids, map_append]
    exact hnodup.1
  · intro hremoved
    refine nodup_of_first fun front id back hsplit hfront => ?_
    obtain ⟨cs, ds, hconnections, rfl, hds⟩ := map_eq_append_iff.mp hsplit
    obtain ⟨c, ds, rfl, rfl, rfl⟩ := map_eq_cons_iff.mp hds
    have hother : ∀ d ∈ cs, d.id ≠ c.id := fun d hd hid => hfront (hid ▸ mem_map_of_mem hd)
    have hgone := hremoved c.id c _ ((removeConnection_iff hg).mpr
      ⟨cs, ds, hconnections, rfl, hother, rfl⟩)
    rw [ids, map_append, mem_append, not_or] at hgone
    exact hgone.2

/-! ## All runs -/

/-- The ids that calls can come to are the labels of numbers above the count of those before them. -/
theorem exists_after_iff (ids : List Value) :
    (∃ edits : List Edit, (∀ e ∈ edits, e.Numbered) ∧ (after edits).ids = ids) ↔
      ∃ ks, ids = ks.map label ∧ Ahead 0 ks := by
  constructor
  · rintro ⟨edits, h, rfl⟩
    exact exists_numbers h
  · rintro ⟨ks, rfl, hks⟩
    exact exists_calls hks

/-- Ids are the labels of numbers above the count of those before them. They stay distinct in a run just
when no connection is made whose number is there already. A removal takes the first connection that
carries the id, which is the only one whatever the id just when ids are distinct. -/
theorem ids_after {edits : List Edit} (h : ∀ e ∈ edits, e.Numbered) :
    (∃ ks, (after edits).ids = ks.map label ∧ Ahead 0 ks) ∧
      ((∀ past, past <+: edits → (after past).ids.Nodup) ↔
        ∀ past e, past ++ [e] <+: edits → e.connects = true → ((after past).edit e).1 = .ok () →
          label ((after past).ids.length + 1) ∉ (after past).ids) ∧
      (∀ id c g', (after edits).removeConnection id = .ok (g', c) ↔
        ∃ front back, (after edits).connections = front ++ c :: back ∧ c.id = id ∧
          (∀ d ∈ front, d.id ≠ id) ∧ g' = { after edits with connections := front ++ back }) ∧
      ((after edits).ids.Nodup ↔
        ∀ id c g', (after edits).removeConnection id = .ok (g', c) → id ∉ g'.ids) := by
  obtain ⟨ks, hks, hahead⟩ := exists_numbers h
  have htexts : ∀ c ∈ (after edits).connections, ∃ s, c.id = .text s := by
    intro c hc
    have hid : c.id ∈ ks.map label := hks ▸ mem_map_of_mem hc
    obtain ⟨k, -, hk⟩ := mem_map.mp hid
    exact ⟨_, hk.symm⟩
  exact ⟨⟨ks, hks, hahead⟩, nodup_ids_iff h, fun id c g' => removeConnection_iff htexts,
    nodup_iff_removed htexts⟩

/-- The connection made last is removed and made again. -/
def redone : List Edit :=
  [.addNode (bare "a"), loopCall "a", loopCall "a", .removeConnection (label 2), loopCall "a"]

/-- Both connections have ids of their own, and no removed id is still there. -/
theorem ids_after_redone : (∀ e ∈ redone, e.Numbered) ∧ (after redone).ids = [label 1, label 2] ∧
    ∀ id c g', (after redone).removeConnection id = .ok (g', c) → id ∉ g'.ids := by
  have hnumbered : ∀ e ∈ redone, e.Numbered := by simp [redone, loopCall, Edit.Numbered]
  have hids : (after redone).ids = [label 1, label 2] := rfl
  have hnodup : (after redone).ids.Nodup := by
    rw [hids]
    simp only [label, nodup_cons, mem_singleton, Value.text.injEq, not_mem_nil, not_false_eq_true,
      nodup_nil, and_self, and_true]
    decide
  exact ⟨hnumbered, hids, (ids_after hnumbered).2.2.2.mp hnodup⟩

/-- Two blocks are connected both ways, the first connection is removed, and it is made again. -/
def rewired : List Edit :=
  [.addNode { bare "a" with blockType := "Dense" }, .addNode { bare "b" with blockType := "Dense" },
    .connect (.text "a") (.text "output") (.text "b") (.text "input") .null,
    .connect (.text "b") (.text "output") (.text "a") (.text "input") .null,
    .removeConnection (label 1),
    .connect (.text "a") (.text "output") (.text "b") (.text "input") .null]

/-- Both connections carry one id, and to remove it takes the older connection and leaves the id. -/
theorem rewired_ids : (∀ e ∈ rewired, e.Numbered) ∧ (after rewired).ids = [label 2, label 2] ∧
    ¬(after rewired).ids.Nodup ∧
      ((after rewired).removeConnection (label 2)).map (fun made => (made.2.source, made.1.ids)) =
        .ok ("b", [label 2]) := by
  have hids : (after rewired).ids = [label 2, label 2] := rfl
  refine ⟨?_, hids, ?_, rfl⟩
  · simp [rewired, Edit.Numbered]
  · rw [hids]
    exact fun h => (nodup_cons.mp h).1 mem_cons_self

end Snapshot

end BlockNet
