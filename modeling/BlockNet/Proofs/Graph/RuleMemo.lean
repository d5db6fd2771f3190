import BlockNet.Graph.RuleMemo
import BlockNet.Proofs.Graph.Rule
import BlockNet.Proofs.Graph.Verdicts
import BlockNet.Proofs.Value.Integer

/-! # Remembered shapes are those of the rule

Calls are the same if their settings are equal, also if these are numbers of different kinds. As a rule
cuts its settings to whole numbers, calls that are the same have the same result, and whatever calls went
before, one that is answered from memory gets what the rule gives. -/

namespace BlockNet

open List

namespace Entries

variable {nanEqual : Bool} {es fs : Entries}

/-- Equal dicts hold equal values under a name, or both hold none. -/
theorem Named.get?_of_equal (hes : es.Named) (hfs : fs.Named)
    (h : (Value.dict es).equal nanEqual (.dict fs) = true) (name : String) :
    es.get? name = none ∧ fs.get? name = none ∨ ∃ v w, es.get? name = some v ∧
      fs.get? name = some w ∧ v.equal nanEqual w = true := by
  obtain ⟨hlength, hfound⟩ := Value.equal_dict_iff.mp h
  have hkeys : es.map (·.1) ~ fs.map (·.1) := by
    refine (hes.nodup.subperm fun key hkey => ?_).perm_of_length_le (by simp [hlength])
    obtain ⟨e, he, rfl⟩ := mem_map.mp hkey
    obtain ⟨name, hname⟩ := hes.text e he
    obtain ⟨f, hf, hsame, -⟩ := hfound e he
    rw [hname, Value.text_equal_iff] at hsame
    exact mem_map.mpr ⟨f, hf, hsame.trans hname.symm⟩
  cases hv : es.get? name with
  | some v =>
      obtain ⟨⟨key, w⟩, hf, hkey, hvalue⟩ := hfound _ (mem_of_get? hv)
      obtain rfl := Value.text_equal_iff.mp hkey
      exact .inr ⟨v, w, rfl, hfs.get?_eq_some_iff.mpr hf, hvalue⟩
  | none =>
      refine .inl ⟨rfl, get?_eq_none_iff.mpr fun f hf hkey => ?_⟩
      obtain ⟨e, he, hsame⟩ := mem_map.mp (hkeys.symm.subset (mem_map_of_mem hf))
      exact get?_eq_none_iff.mp hv e he (hsame.trans hkey)

/-- Equal settings are read as the same whole numbers. -/
theorem Named.integer_congr (hes : es.Named) (hfs : fs.Named)
    (h : (Value.dict es).equal nanEqual (.dict fs) = true) (name : String) :
    es.integer name = fs.integer name := by
  rw [integer, integer, require, require]
  rcases hes.get?_of_equal hfs h name with ⟨hes, hfs⟩ | ⟨v, w, hv, hw, hsame⟩
  · rw [hes, hfs]
  · rw [hv, hw]
    exact Value.toInt_congr hsame

end Entries

namespace RuleCall

variable {c d : RuleCall}

/-- What the rule of a block type gives for the settings of a call, without any memory. -/
def direct (c : RuleCall) : Outcome TensorShape := shapeRule c.blockType c.params c.base

/-- Settings under texts can be put in order. -/
theorem shape_eq_direct (h : c.params.Named) : c.shape = c.direct :=
  if_pos (Entries.TextKeys.sortable h.text)

/-- Calls that are the same have the same result. -/
theorem direct_congr (hc : c.params.Named) (hd : d.params.Named) (h : c.same d = true) :
    c.direct = d.direct := by
  rw [same, Bool.and_eq_true, Bool.and_eq_true] at h
  obtain ⟨⟨htype, hparams⟩, hbase⟩ := h
  rw [direct, direct, eq_of_beq htype, eq_of_beq hbase]
  exact shapeRule_congr _ _ (hc.integer_congr hd hparams)

end RuleCall

namespace RuleMemo

variable {m : RuleMemo} {c : RuleCall} {s : TensorShape}

/-- What is remembered for a call is what the rule gives for it. -/
def Sound (m : RuleMemo) : Prop := ∀ e ∈ m.known, e.1.params.Named ∧ e.1.direct = .ok e.2

theorem sound_empty : Sound empty := by
  intro e he
  cases he

theorem Sound.get? (hm : m.Sound) (hc : c.params.Named) (h : m.get? c = some s) :
    c.direct = .ok s := by
  obtain ⟨e, he, rfl⟩ := Option.map_eq_some_iff.mp h
  obtain ⟨hnamed, hdirect⟩ := hm e (mem_of_find?_eq_some he)
  have hsame : e.1.same c = true := by simpa using find?_some he
  rw [← hdirect]
  exact (RuleCall.direct_congr hnamed hc hsame).symm

theorem Sound.insert (hm : m.Sound) (hc : c.params.Named) (h : c.direct = .ok s) :
    (m.insert c s).Sound := by
  intro e he
  rcases mem_cons.mp (mem_of_mem_take he) with rfl | he
  · exact ⟨hc, h⟩
  · exact hm e (mem_filter.mp he).1

/-- A call is answered by what the rule gives, and only that is remembered. -/
theorem Sound.apply (hm : m.Sound) (hc : c.params.Named) :
    (m.apply c).2 = c.direct ∧ (m.apply c).1.Sound := by
  rw [RuleMemo.apply, RuleCall.shape_eq_direct hc]
  split
  · exact ⟨rfl, hm⟩
  · cases hknown : m.get? c with
    | some s =>
        have hdirect := hm.get? hc hknown
        exact ⟨hdirect.symm, hm.insert hc hdirect⟩
    | none =>
        cases hdirect : c.direct with
        | ok s => exact ⟨rfl, hm.insert hc hdirect⟩
        | error fault => exact ⟨rfl, hm⟩

theorem Sound.applyAll (hm : m.Sound) {calls : List RuleCall} (hcalls : ∀ c ∈ calls, c.params.Named) :
    (m.applyAll calls).2 = calls.map RuleCall.direct ∧ (m.applyAll calls).1.Sound := by
  induction calls generalizing m with
  | nil => exact ⟨rfl, hm⟩
  | cons c calls ih =>
      obtain ⟨hc, hcalls⟩ := forall_mem_cons.mp hcalls
      obtain ⟨hshape, hsound⟩ := hm.apply hc
      obtain ⟨hshapes, hsound⟩ := ih hsound hcalls
      refine ⟨?_, hsound⟩
      rw [map_cons, ← hshape, ← hshapes]
      rfl

/-- Whatever calls are made one after the other, each gets the shape or the fault that the rule of its
block type gives for its own settings and its own shape. A shape has the rank and the element type of the
one that entered and the same axes but for those that the rule is for, and pooling leaves open axes
open. -/
theorem applyAll_transparent {calls : List RuleCall} (hcalls : ∀ c ∈ calls, c.params.Named) :
    (empty.applyAll calls).2 = calls.map (fun c => shapeRule c.blockType c.params c.base) ∧
      ∀ c ∈ calls, ∀ s, shapeRule c.blockType c.params c.base = .ok s →
        c.base.Kept (ruleAxes c.blockType c.base.rank) s ∧
          (c.blockType = "MaxPooling2D" → c.base.KeepsOpen s) := by
  refine ⟨(sound_empty.applyAll hcalls).1, fun c _ s hs => ⟨shapeRule_kept hs, fun hpool => ?_⟩⟩
  rw [hpool] at hs
  exact (pooling_kept hs).2

/-- The calls of a dense block with one unit, told by numbers of three kinds and in a list. -/
def unitCalls : List RuleCall :=
  [.int 1, .bool true, .real 1, .list [.int 1]].map fun units =>
    ⟨"Dense", [(.text "units", units)], ⟨[Dim.batch, .size 4], .float32⟩⟩

/-- The numbers are one key, so a single result is remembered, and the list is refused. -/
theorem applyAll_transparent_kinds :
    (∀ c ∈ unitCalls, c.params.Named) ∧
      (empty.applyAll unitCalls).2 = [.ok ⟨[Dim.batch, .size 1], .float32⟩,
        .ok ⟨[Dim.batch, .size 1], .float32⟩, .ok ⟨[Dim.batch, .size 1], .float32⟩,
        mishap .wrongType] ∧
      (empty.applyAll unitCalls).1.known.length = 1 := by
  have hnamed : ∀ c ∈ unitCalls, c.params.Named := by simp [unitCalls]
  refine ⟨hnamed, (applyAll_transparent hnamed).1.trans rfl, ?_⟩
  decide +kernel

end RuleMemo

end BlockNet
