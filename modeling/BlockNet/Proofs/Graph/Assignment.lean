import BlockNet.Graph.Node
import BlockNet.Proofs.Catalog.Overlay

/-! # Storing a parameter in a node

A parameter is stored in canonical form, or the node stays as it is. The settings of the node are then
those that it has without an override of that parameter, but for the value that was stored. -/

namespace BlockNet

open List

/-! ## One assignment -/

namespace Node

variable {catalog : Catalog} {n after : Node} {d : BlockDefinition} {name v w : Value}
  {fault : Fault}

/-- An assignment turns the node into the changed one, or fails and leaves it. -/
theorem assign_eq (catalog : Catalog) (n : Node) (name v : Value) :
    (assign catalog name v).run n = match n.setParam catalog name v with
      | .ok (after, w) => (.ok w, after)
      | .error fault => (.error fault, n) := by
  rw [assign, setParam]
  change ((liftM (catalog.require n.blockType) : ExceptT Fault (StateM Node) _) >>= _).run n = _
  rw [run_lift_bind]
  cases catalog.require n.blockType with
  | error fault => rfl
  | ok d =>
      simp only [run_lift_bind, ok_bind]
      cases d.coerceParam name v with
      | error fault => rfl
      | ok w => rfl

/-- An assignment that fails leaves the node. -/
theorem assign_eq_error (h : (assign catalog name v).run n = (.error fault, after)) : after = n := by
  rw [assign_eq] at h
  cases hset : n.setParam catalog name v with
  | ok result =>
      rw [hset] at h
      cases congrArg Prod.fst h
  | error other =>
      rw [hset] at h
      exact (congrArg Prod.snd h).symm

theorem assign_eq_ok (hd : catalog.get? n.blockType = some d) :
    (assign catalog name v).run n = (.ok w, after) ↔
      d.coerceParam name v = .ok w ∧ after = { n with params := n.params.set name w } := by
  have hrequire : catalog.require n.blockType = .ok d := by rw [Catalog.require, hd]
  rw [assign_eq, setParam, hrequire, ok_bind]
  cases d.coerceParam name v with
  | error fault => exact iff_of_false nofun nofun
  | ok u =>
      rw [ok_bind, Prod.mk.injEq, Except.ok.injEq]
      constructor
      · rintro ⟨rfl, rfl⟩
        exact ⟨rfl, rfl⟩
      · rintro ⟨rfl, rfl⟩
        exact ⟨rfl, rfl⟩

end Node

/-! ## Settings after an assignment -/

namespace BlockDefinition

variable {d : BlockDefinition} {params : Entries} {name v w : Value}

/-- A parameter that is read belongs to a schema, and what is read of it is read as itself. -/
theorem coerceParam_eq_ok (hd : Consistent d.parameters) (h : d.coerceParam name v = .ok w) :
    ∃ spec ∈ d.parameters, name = spec.name ∧ d.coerceParam name w = .ok w ∧
      d.coerceOverride name w = .ok w := by
  rw [coerceParam] at h
  cases hparam : d.param? name with
  | none =>
      rw [hparam] at h
      cases h
  | some spec =>
      rw [hparam] at h
      obtain ⟨hspec, hname⟩ := (param?_eq_some hd).mp hparam
      have hw := ParamSpec.coerce_coerce (hd.apart spec hspec) h d.blockType
      rw [coerceParam, coerceOverride, hparam]
      exact ⟨spec, hspec, hname, hw, hw⟩

theorem Reads.set (hkeyed : params.Keyed) (hreads : d.Reads (params.erase name)) {key : String}
    (hname : name = .text key) (hw : d.coerceOverride name w = .ok w) :
    d.Reads (params.set name w) := by
  subst hname
  intro e he
  rcases hkeyed.mem_set he with he | rfl
  · exact hreads e he
  · exact ⟨w, hw⟩

/-- The settings with a parameter stored are those without an override of it, but for the value that
was stored, at the place of its schema. -/
theorem effectiveParams_set (hd : Consistent d.parameters) (hkeyed : params.Keyed)
    (hreads : d.Reads (params.erase name)) (h : d.coerceParam name v = .ok w) :
    ∃ (front : Entries) (old : Value) (back : Entries),
      d.effectiveParams (params.erase name) = .ok (front ++ (name, old) :: back) ∧
        front.keys ++ [name] <+: d.parameters.map (·.name) ∧
          d.effectiveParams (params.set name w) = .ok (front ++ (name, w) :: back) := by
  obtain ⟨spec, hspec, rfl, -, hw⟩ := coerceParam_eq_ok hd h
  obtain ⟨key, hkey⟩ := hd.named spec hspec
  obtain ⟨without, hwithout⟩ := (exists_effectiveParams_iff hd).mpr hreads
  have hlaid := effectiveParams_laidOut hd (hkeyed.erase spec.name) hwithout
  obtain ⟨front, old, back, rfl, hplace, hset⟩ := hlaid.split hd hspec
  refine ⟨front, old, back, hwithout, hplace, ?_⟩
  rw [effectiveParams_eq_ok_iff hd (hkeyed.set _ _), ← hset w]
  exact ⟨Reads.set hkeyed hreads hkey hw, hlaid.set hd hspec hw⟩

end BlockDefinition

namespace Stock

/-- The settings of a stock block are the parameters of its schemas in their order and then what no
schema knows, and they are their own settings. Storing a parameter in a node changes the settings at
the place of that parameter alone, storing it again changes nothing, and a failure changes nothing
either. -/
theorem effectiveParams_settled {blockType : String} {d : BlockDefinition}
    (hd : catalog.get? blockType = some d) :
    (∀ overrides params : Entries, overrides.Keyed → d.effectiveParams overrides = .ok params →
      d.LaidOut overrides params ∧ d.effectiveParams params = .ok params) ∧
    (∀ (n after : Node) (name v w : Value), n.blockType = blockType → n.params.Keyed →
      d.Reads (n.params.erase name) → (Node.assign catalog name v).run n = (.ok w, after) →
        (∃ (front : Entries) (old : Value) (back : Entries),
          d.effectiveParams (n.params.erase name) = .ok (front ++ (name, old) :: back) ∧
            front.keys ++ [name] <+: d.parameters.map (·.name) ∧
              after.effectiveParams catalog = .ok (front ++ (name, w) :: back)) ∧
          (Node.assign catalog name w).run after = (.ok w, after)) ∧
    ∀ (n after : Node) (name v : Value) (fault : Fault),
      (Node.assign catalog name v).run n = (.error fault, after) → after = n := by
  have hconsistent := consistent hd
  refine ⟨fun overrides params hkeyed h => ?_, ?_, fun n after name v fault => Node.assign_eq_error⟩
  · exact ⟨BlockDefinition.effectiveParams_laidOut hconsistent hkeyed h,
      BlockDefinition.effectiveParams_effectiveParams hconsistent hkeyed h⟩
  · rintro n after name v w rfl hkeyed hreads hassign
    obtain ⟨hw, rfl⟩ := (Node.assign_eq_ok hd).mp hassign
    obtain ⟨spec, hspec, rfl, hagain, -⟩ := BlockDefinition.coerceParam_eq_ok hconsistent hw
    refine ⟨?_, ?_⟩
    · rw [Node.effectiveParams, Catalog.require, hd, ok_bind]
      exact BlockDefinition.effectiveParams_set hconsistent hkeyed hreads hw
    · have hself := (hconsistent.sameKey_iff hspec).mpr rfl
      rw [Node.assign_eq_ok (n := { n with params := n.params.set spec.name w }) hd,
        Entries.set_set hself]
      exact ⟨hagain, rfl⟩

/-- A dense layer whose width came as a text, with a note of the editor among its parameters. -/
def noted : Node :=
  ⟨"dense", "Dense", [("units", " 8\n"), ("note", .list [.null])], .null, false, .null, []⟩

/-- The settings of the dense layer in their order. -/
def notedParams : Entries :=
  [("units", .int 8), ("activation", "relu"), ("use_bias", .bool true), ("bias_init", .real 0.0),
    ("note", .list [.null])]

/-- The settings of the dense layer are laid out and are their own settings, and storing its
activation a second time changes nothing. -/
theorem effectiveParams_settled_noted : ∃ d, catalog.get? "Dense" = some d ∧
    d.LaidOut noted.params notedParams ∧ d.effectiveParams notedParams = .ok notedParams ∧
      ∃ after, (Node.assign catalog "activation" "tanh").run noted = (.ok "tanh", after) ∧
        (Node.assign catalog "activation" "tanh").run after = (.ok "tanh", after) := by
  refine ⟨_, rfl, ?_⟩
  have hd : catalog.get? "Dense" = some _ := rfl
  have hkeyed : noted.params.Keyed := by
    simp only [Entries.Keyed, noted]
    decide
  have hreads : BlockDefinition.Reads _ (noted.params.erase "activation") :=
    (BlockDefinition.exists_effectiveParams_iff (consistent hd)).mp ⟨notedParams, rfl⟩
  obtain ⟨hlaid, hagain⟩ := (effectiveParams_settled hd).1 noted.params notedParams hkeyed rfl
  exact ⟨hlaid, hagain, _, rfl,
    ((effectiveParams_settled hd).2.1 noted _ "activation" "tanh" "tanh" rfl hkeyed hreads rfl).2⟩

end Stock

end BlockNet
