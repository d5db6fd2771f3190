import BlockNet.Proofs.Compilation.Keys
import BlockNet.Proofs.Graph.Verdicts

/-! # Verdicts that connections remember

The verdict that a refresh writes into a connection and the report of the graph come from the same check
of the same two nodes. A refresh fails where the report fails, and otherwise the report lists what is
wrong with the connections that were found invalid, but for those with a missing end. -/

namespace BlockNet

open List

namespace Snapshot

variable {catalog : Catalog} {g : Snapshot} {n : Node}

/-! ## Nodes of distinct ids -/

theorem node?_eq_some {id : String} : g.node? id = some n ↔ n ∈ g.nodes ∧ n.id = id := by
  constructor
  · intro h
    have hfind : g.nodes.find? (·.id == id) = some n := h
    exact ⟨mem_of_find?_eq_some hfind, by simpa using find?_some hfind⟩
  · rintro ⟨hn, rfl⟩
    exact find?_of_unique hn (beq_self_eq_true _) fun m hm hid =>
      inj_on_of_nodup_map g.nodup hm hn (eq_of_beq hid)

/-- The last node of an id is the only one. -/
theorem lastNode?_nodes (g : Snapshot) (id : String) : lastNode? g.nodes id = g.node? id := by
  cases hnode : g.node? id with
  | some n =>
      obtain ⟨hn, rfl⟩ := node?_eq_some.mp hnode
      exact find?_of_unique (mem_reverse.mpr hn) (beq_self_eq_true _) fun m hm hid =>
        inj_on_of_nodup_map g.nodup (mem_reverse.mp hm) hn (eq_of_beq hid)
  | none =>
      have hall : ∀ m ∈ g.nodes, ¬(m.id == id) = true := find?_eq_none.mp hnode
      exact find?_eq_none.mpr fun m hm => hall m (mem_reverse.mp hm)

/-! ## One check behind both -/

/-- The nodes at the ends of a connection with the verdict on it, if both are there. -/
def examine (catalog : Catalog) (g : Snapshot) (c : Connection) :
    Outcome (Option (Node × Node × Verdict)) :=
  match g.node? c.source, g.node? c.target with
  | some source, some target =>
      (validateConnection catalog source c.sourcePort target c.targetPort).map
        fun verdict => some (source, target, verdict)
  | _, _ => .ok none

/-- What examining one connection after the other finds. -/
abbrev Examined (catalog : Catalog) (g : Snapshot) (connections : List Connection)
    (found : List (Option (Node × Node × Verdict))) : Prop :=
  Forall₂ (fun c f => g.examine catalog c = .ok f) connections found

/-- What is remembered of an examination. -/
def memoOf : Option (Node × Node × Verdict) → Bool × Option String
  | some (_, _, verdict) => (verdict.valid, verdict.error?)
  | none => (false, some "Connection references a missing node")

/-- What is reported of an examination. -/
def reportOf (c : Connection) : Option (Node × Node × Verdict) → Option Issue
  | some (source, target, verdict) => verdict.issue? c source target
  | none => none

/-- Does a connection start and end at nodes that are there? -/
def joins (g : Snapshot) (c : Connection) : Bool :=
  (g.node? c.source).isSome && (g.node? c.target).isSome

variable {c : Connection} {source target : Node}

theorem examine_joined (hsource : g.node? c.source = some source)
    (htarget : g.node? c.target = some target) : g.examine catalog c =
      (validateConnection catalog source c.sourcePort target c.targetPort).map
        fun verdict => some (source, target, verdict) := by
  rw [examine, hsource, htarget]

theorem joins_cases (g : Snapshot) (c : Connection) :
    (∃ source target, g.node? c.source = some source ∧ g.node? c.target = some target ∧
      g.joins c = true) ∨
    (g.joins c = false ∧ ∀ source target, g.node? c.source = some source →
      g.node? c.target ≠ some target) := by
  rw [joins]
  cases g.node? c.source with
  | none => exact .inr ⟨rfl, nofun⟩
  | some source =>
      cases g.node? c.target with
      | none => exact .inr ⟨rfl, nofun⟩
      | some target => exact .inl ⟨source, target, rfl, rfl, rfl⟩

theorem examine_unjoined (h : ∀ source target, g.node? c.source = some source →
    g.node? c.target ≠ some target) : g.examine catalog c = .ok none := by
  unfold examine
  split
  · exact absurd ‹_› (h _ _ ‹_›)
  · rfl

theorem verdictOn_eq (catalog : Catalog) (g : Snapshot) (c : Connection) :
    verdictOn catalog g c = (g.examine catalog c).map memoOf := by
  rcases g.joins_cases c with ⟨source, target, hsource, htarget, -⟩ | ⟨-, hmissing⟩
  · simp only [examine_joined hsource htarget, verdictOn, hsource, htarget]
    cases validateConnection catalog source c.sourcePort target c.targetPort <;> rfl
  · rw [examine_unjoined hmissing]
    unfold verdictOn
    split
    · exact absurd ‹_› (hmissing _ _ ‹_›)
    · rfl

theorem connectionIssue_examine (catalog : Catalog) (g : Snapshot) (c : Connection) :
    connectionIssue catalog g.nodes c = (g.examine catalog c).map (reportOf c) := by
  rcases g.joins_cases c with ⟨source, target, hsource, htarget, -⟩ | ⟨-, hmissing⟩
  · rw [examine_joined hsource htarget]
    rw [← lastNode?_nodes] at hsource htarget
    rw [connectionIssue_eq hsource htarget]
    cases validateConnection catalog source c.sourcePort target c.targetPort <;> rfl
  · rw [examine_unjoined hmissing]
    unfold connectionIssue
    simp only [lastNode?_nodes]
    rfl

end Snapshot

/-! ## Both loops -/

/-- Is the connection remembered as invalid? -/
def Connection.isRefused (c : Connection) : Bool :=
  match c.isValid with
  | .bool false => true
  | _ => false

namespace Snapshot

variable {catalog : Catalog} {g : Snapshot}

/-- A refresh that meets a connection which cannot be judged fails as it does. -/
theorem refreshAll_error {connections : List Connection} {fault : Fault}
    (h : connections.mapM (g.examine catalog) = .error fault) :
    (refreshAll catalog g connections).2 = .error fault := by
  induction connections with
  | nil => cases h
  | cons c rest ih =>
      rw [mapM_cons, bind_eq_error] at h
      rw [refreshAll, verdictOn_eq]
      rcases h with hc | ⟨found, hc, h⟩
      · rw [hc]
        rfl
      · have hrest := (bind_eq_error.mp h).resolve_right fun ⟨_, _, hpure⟩ => nomatch hpure
        rw [hc]
        simp only [Except.map, ih hrest]
        split <;> rfl

/-- The connections after a refresh that judges all of them. -/
def refreshed (connections : List Connection) (found : List (Option (Node × Node × Verdict))) :
    List Connection :=
  connections.zipWith (fun c f => remember c (memoOf f)) found

theorem isRefused_remember (c : Connection) (v : Bool × Option String) :
    (remember c v).isRefused = !v.1 := by
  obtain ⟨valid, error⟩ := v
  cases valid <;> rfl

/-- A refresh writes every verdict and gives the connections whose verdict is invalid. -/
theorem refreshAll_ok {connections : List Connection} {found : List (Option (Node × Node × Verdict))}
    (h : g.Examined catalog connections found) :
    refreshAll catalog g connections =
      (refreshed connections found, .ok ((refreshed connections found).filter (·.isRefused))) := by
  induction h with
  | nil => rfl
  | @cons c f rest found hc _ ih =>
      rw [refreshAll, verdictOn_eq, hc, refreshed, zipWith_cons_cons, filter_cons,
        isRefused_remember]
      simp only [Except.map, ih]
      cases (memoOf f).1 <;> rfl

/-! ## What is remembered and what is reported -/

/-- A connection whose nodes are there, and that is accepted between them. -/
def Accepts (catalog : Catalog) (g : Snapshot) (c : Connection) : Prop :=
  ∃ source target shape warning, g.node? c.source = some source ∧ g.node? c.target = some target ∧
    validateConnection catalog source c.sourcePort target c.targetPort = .ok (.accepted shape warning)

/-- A connection after a refresh: nothing but its verdict has changed, which says whether it is accepted.
It has no error if it is, and a missing end is an error of its own. -/
structure Memoized (catalog : Catalog) (g : Snapshot) (c fresh : Connection) : Prop where
  rest : fresh = { c with isValid := fresh.isValid, error := fresh.error }
  valid : fresh.isValid = .bool true ↔ g.Accepts catalog c
  invalid : fresh.isValid = .bool false ↔ ¬g.Accepts catalog c
  clear : fresh.isValid = .bool true → fresh.error = .null
  missing : g.joins c = false → fresh.error = .text "Connection references a missing node"

/-- An issue that says of a connection what the connection remembers. -/
structure Reports (fresh : Connection) (i : Issue) : Prop where
  id : i.connectionId = fresh.id
  message : fresh.error = .text i.message

variable {c : Connection} {f : Option (Node × Node × Verdict)}

theorem accepts_iff (h : g.examine catalog c = .ok f) : g.Accepts catalog c ↔ (memoOf f).1 = true := by
  rcases g.joins_cases c with ⟨source, target, hsource, htarget, -⟩ | ⟨-, hmissing⟩
  · rw [examine_joined hsource htarget, map_eq_ok] at h
    obtain ⟨verdict, hverdict, rfl⟩ := h
    rw [Accepts]
    simp only [hsource, htarget, Option.some.injEq, exists_and_left, exists_eq_left', hverdict,
      Except.ok.injEq]
    cases verdict with
    | accepted shape warning => simp [memoOf, Verdict.valid]
    | refused code error index => simp [memoOf, Verdict.valid]
  · rw [examine_unjoined hmissing] at h
    obtain rfl := Except.ok.inj h
    constructor
    · rintro ⟨source, target, _, _, hsource, htarget, -⟩
      exact absurd htarget (hmissing source target hsource)
    · nofun

theorem memoized_remember (h : g.examine catalog c = .ok f) :
    g.Memoized catalog c (remember c (memoOf f)) := by
  have hvalid : (remember c (memoOf f)).isValid = .bool (memoOf f).1 := rfl
  refine ⟨rfl, ?_, ?_, ?_, ?_⟩
  · rw [hvalid, accepts_iff h, Value.bool.injEq]
  · rw [hvalid, accepts_iff h, Value.bool.injEq, Bool.not_eq_true]
  · rw [hvalid, Value.bool.injEq]
    intro hmemo
    cases f with
    | none => cases hmemo
    | some judged =>
        obtain ⟨source, target, verdict⟩ := judged
        cases verdict with
        | accepted shape warning => rfl
        | refused code error index => cases hmemo
  · intro hjoins
    rcases g.joins_cases c with ⟨source, target, -, -, htrue⟩ | ⟨-, hmissing⟩
    · rw [hjoins] at htrue
      cases htrue
    · rw [examine_unjoined hmissing] at h
      obtain rfl := Except.ok.inj h
      rfl

/-- An examined connection is reported just when it is remembered as invalid and both of its ends are
there, and then the report says what is remembered. -/
theorem reportOf_cases (h : g.examine catalog c = .ok f) :
    ((remember c (memoOf f)).isRefused && g.joins c) = true ∧
        (∃ i, reportOf c f = some i ∧ Reports (remember c (memoOf f)) i) ∨
      ((remember c (memoOf f)).isRefused && g.joins c) = false ∧ reportOf c f = none := by
  rw [isRefused_remember]
  rcases g.joins_cases c with ⟨source, target, hsource, htarget, hjoins⟩ | ⟨hjoins, hmissing⟩
  · rw [examine_joined hsource htarget, map_eq_ok] at h
    obtain ⟨verdict, -, rfl⟩ := h
    rw [hjoins]
    cases verdict with
    | accepted shape warning => exact .inr ⟨rfl, rfl⟩
    | refused code error index => exact .inl ⟨rfl, _, rfl, rfl, rfl⟩
  · rw [examine_unjoined hmissing] at h
    obtain rfl := Except.ok.inj h
    exact .inr ⟨by rw [hjoins, Bool.and_false], rfl⟩

variable {connections : List Connection} {found : List (Option (Node × Node × Verdict))}

theorem mapM_connectionIssue (h : g.Examined catalog connections found) :
    connections.mapM (connectionIssue catalog g.nodes) = .ok (connections.zipWith reportOf found) := by
  induction h with
  | nil => rfl
  | cons hc _ ih =>
      rw [mapM_cons, connectionIssue_examine, hc, ih]
      rfl

theorem mapM_connectionIssue_error {fault : Fault}
    (h : connections.mapM (g.examine catalog) = .error fault) :
    connections.mapM (connectionIssue catalog g.nodes) = .error fault := by
  induction connections with
  | nil => cases h
  | cons c rest ih =>
      rw [mapM_cons, bind_eq_error] at h
      rw [mapM_cons, connectionIssue_examine]
      rcases h with hc | ⟨found, hc, h⟩
      · rw [hc]
        rfl
      · rw [hc, ih ((bind_eq_error.mp h).resolve_right fun ⟨_, _, hpure⟩ => nomatch hpure)]
        rfl

/-- What is reported is what is remembered of the invalid connections with both ends. -/
theorem forall₂_reports (h : g.Examined catalog connections found) :
    Forall₂ Reports (((refreshed connections found).filter (·.isRefused)).filter g.joins)
      ((connections.zipWith reportOf found).filterMap id) := by
  rw [filter_filter]
  induction h with
  | nil => exact .nil
  | @cons c f rest found hc _ ih =>
      rw [refreshed, zipWith_cons_cons, zipWith_cons_cons, filter_cons, filterMap_cons]
      have hjoins : g.joins (remember c (memoOf f)) = g.joins c := rfl
      rw [hjoins, Bool.and_comm]
      rcases reportOf_cases hc with ⟨hrefused, i, hi, hreports⟩ | ⟨hrefused, hnone⟩
      · rw [hrefused, hi]
        exact .cons hreports ih
      · rw [hrefused, hnone]
        exact ih

theorem memoized_refreshed (h : g.Examined catalog connections found) :
    Forall₂ (g.Memoized catalog) connections (refreshed connections found) := by
  induction h with
  | nil => exact .nil
  | cons hc _ ih => exact .cons (memoized_remember hc) ih

/-- A check does not read what a connection remembers. -/
theorem examined_refreshed (h : g.Examined catalog connections found) :
    g.Examined catalog (refreshed connections found) found := by
  induction h with
  | nil => exact .nil
  | cons hc _ ih => exact .cons hc ih

theorem zipWith_reportOf_refreshed
    (h : g.Examined catalog connections found) :
    (refreshed connections found).zipWith reportOf found = connections.zipWith reportOf found := by
  induction h with
  | nil => rfl
  | @cons c f rest found _ _ ih =>
      rw [refreshed, zipWith_cons_cons, zipWith_cons_cons, zipWith_cons_cons]
      exact congrArg₂ _ rfl ih

/-- The report of connections one after the other is the reports of its parts. -/
theorem validateGraph_append (catalog : Catalog) (nodes : List Node) (front back : List Connection) :
    validateGraph catalog ⟨nodes, front ++ back⟩ = (do
      let issues ← validateGraph catalog ⟨nodes, front⟩
      let more ← validateGraph catalog ⟨nodes, back⟩
      .ok (issues ++ more)) := by
  simp only [validateGraph, mapM_append]
  cases front.mapM (connectionIssue catalog nodes) with
  | error fault => rfl
  | ok answers =>
      cases back.mapM (connectionIssue catalog nodes) with
      | error fault => rfl
      | ok more => simp [bind, Except.bind, pure, Except.pure]

/-- A graph whose connections can all be examined is reported on. -/
theorem validateGraph_ok {catalog : Catalog} {g : Snapshot}
    {found : List (Option (Node × Node × Verdict))}
    (h : g.Examined catalog g.connections found) :
    validateGraph catalog g.graph = .ok ((g.connections.zipWith reportOf found).filterMap id) := by
  rw [validateGraph, graph, mapM_connectionIssue h]
  rfl

/-- The report fails at the first connection that cannot be examined. -/
theorem validateGraph_error {catalog : Catalog} {g : Snapshot} {fault : Fault}
    (h : g.connections.mapM (g.examine catalog) = .error fault) :
    validateGraph catalog g.graph = .error fault := by
  rw [validateGraph, graph, mapM_connectionIssue_error h]
  rfl

/-- A refresh fails where the report of the graph fails. If it does not fail, every connection remembers
whether it is accepted and nothing else has changed, the connections given are those remembered as
invalid, and the report, before the refresh as after it, says of those with both ends, in their order,
what they remember. A report of connections one after the other is the reports of its parts. -/
theorem refreshValidity_reported (catalog : Catalog) (g : Snapshot) :
    (∀ fault, (g.refreshValidity catalog).2 = .error fault ↔
      validateGraph catalog g.graph = .error fault) ∧
    (∀ fresh refused, g.refreshValidity catalog = (fresh, .ok refused) →
      fresh.nodes = g.nodes ∧ Forall₂ (g.Memoized catalog) g.connections fresh.connections ∧
        refused = fresh.connections.filter (·.isRefused) ∧
          ∃ issues, validateGraph catalog g.graph = .ok issues ∧
            validateGraph catalog fresh.graph = .ok issues ∧
              Forall₂ Reports (refused.filter g.joins) issues) ∧
    ∀ (nodes : List Node) (front back : List Connection),
      validateGraph catalog ⟨nodes, front ++ back⟩ = (do
        let issues ← validateGraph catalog ⟨nodes, front⟩
        let more ← validateGraph catalog ⟨nodes, back⟩
        .ok (issues ++ more)) := by
  refine ⟨fun fault => ?_, fun fresh refused hfresh => ?_, validateGraph_append catalog⟩
  · cases hfound : g.connections.mapM (g.examine catalog) with
    | error stuck =>
        have hrefresh : (g.refreshValidity catalog).2 = .error stuck := refreshAll_error hfound
        rw [hrefresh, validateGraph_error hfound, Except.error.injEq, Except.error.injEq]
    | ok found =>
        have hexamined := mapM_eq_ok.mp hfound
        have hrefresh : (g.refreshValidity catalog).2 = _ := congrArg (·.2) (refreshAll_ok hexamined)
        rw [hrefresh, validateGraph_ok hexamined]
        exact ⟨nofun, nofun⟩
  · cases hfound : g.connections.mapM (g.examine catalog) with
    | error stuck =>
        have hrefresh : (g.refreshValidity catalog).2 = .error stuck := refreshAll_error hfound
        rw [hfresh] at hrefresh
        cases hrefresh
    | ok found =>
        have hexamined := mapM_eq_ok.mp hfound
        rw [refreshValidity, refreshAll_ok hexamined] at hfresh
        obtain ⟨rfl, hrefused⟩ := Prod.mk.inj hfresh
        obtain rfl := Except.ok.inj hrefused
        have hafter : validateGraph catalog ⟨g.nodes, refreshed g.connections found⟩ =
            .ok ((g.connections.zipWith reportOf found).filterMap id) := by
          rw [← zipWith_reportOf_refreshed hexamined]
          exact validateGraph_ok (g := { g with connections := _ }) (examined_refreshed hexamined)
        exact ⟨rfl, memoized_refreshed hexamined, rfl, _, validateGraph_ok hexamined, hafter,
          forall₂_reports hexamined⟩

end Snapshot

end BlockNet
