import BlockNet.Catalog.Basic
import BlockNet.Schedule
import Mathlib.Data.List.Basic
import Mathlib.Data.List.Perm.Basic

/-! # Extended and grouped catalogs

A definition put into a catalog answers for its type, in the place that the type has or at the end.
So the types of an extended catalog are those of the old one and the new ones in order of first
appearance, and the last definition of a type answers for it. The categories of a catalog deal its
types out into groups. -/

namespace BlockNet.Catalog

open List

/-! ## A catalog by its types and what they mean -/

theorem find?_put (blocks : List BlockDefinition) (d : BlockDefinition) (t : String) :
    (put blocks d).find? (·.blockType == t) =
      if d.blockType = t then some d else blocks.find? (·.blockType == t) := by
  induction blocks with
  | nil => simp [put, find?_cons]; split <;> simp_all
  | cons b rest ih =>
      by_cases hb : b.blockType = d.blockType
      · have hput : put (b :: rest) d = d :: rest := by simp [put, hb]
        rw [hput, find?_cons, find?_cons, hb]
        by_cases hd : d.blockType = t
        · simp [hd]
        · rw [if_neg hd, beq_false_of_ne hd]
      · by_cases hd : d.blockType = t
        · subst hd
          simpa [put, hb] using ih
        · simp [put, hb, hd, find?_cons, ih]

theorem get?_insert (c : Catalog) (d : BlockDefinition) (t : String) :
    (c.insert d).get? t = if d.blockType = t then some d else c.get? t :=
  find?_put c.blocks d t

theorem types_insert (c : Catalog) (d : BlockDefinition) :
    (c.insert d).types = if d.blockType ∈ c.types then c.types else c.types ++ [d.blockType] :=
  types_put c.blocks d

theorem get?_of_mem {c : Catalog} {d : BlockDefinition} (h : d ∈ c.blocks) :
    c.get? d.blockType = some d := by
  obtain ⟨blocks, hnodup⟩ := c
  change blocks.find? _ = some d
  induction blocks with
  | nil => cases h
  | cons b rest ih =>
      obtain ⟨hb, hrest⟩ := nodup_cons.mp hnodup
      rcases mem_cons.mp h with rfl | h
      · simp
      · have hne : b.blockType ≠ d.blockType := fun e => hb (mem_map.mpr ⟨d, h, e.symm⟩)
        rw [find?_cons_of_neg (by simpa using hne)]
        exact ih hrest h

/-- The blocks of a catalog can be read off its types. -/
theorem filterMap_types (c : Catalog) : c.types.filterMap c.get? = c.blocks := by
  rw [types, filterMap_map]
  calc c.blocks.filterMap (c.get? ∘ (·.blockType)) = c.blocks.filterMap some :=
        filterMap_congr fun d hd => get?_of_mem hd
    _ = c.blocks := filterMap_some

theorem eq_of_blocks {c c' : Catalog} (h : c.blocks = c'.blocks) : c = c' := by
  obtain ⟨blocks, hnodup⟩ := c
  obtain ⟨blocks', hnodup'⟩ := c'
  cases h
  rfl

theorem eq_of_types {c c' : Catalog} (htypes : c.types = c'.types)
    (hget : ∀ t, c.get? t = c'.get? t) : c = c' := by
  apply eq_of_blocks
  rw [← filterMap_types, ← filterMap_types, htypes, funext hget]

/-! ## Extending -/

theorem blocks_extended (c : Catalog) (ds : List BlockDefinition) :
    (c.extended ds).blocks = ds.foldl put c.blocks := by
  induction ds generalizing c with
  | nil => rfl
  | cons d ds ih => exact ih (c.insert d)

theorem distinct_types (c : Catalog) : distinct c.types = c.types := by
  obtain ⟨blocks, hnodup⟩ := c
  change distinct (blocks.map _) = blocks.map _
  induction blocks with
  | nil => rfl
  | cons b rest ih =>
      obtain ⟨hb, hrest⟩ := nodup_cons.mp hnodup
      rw [map_cons, distinct, ih hrest, filter_eq_self.mpr]
      intro t ht
      rw [bne_iff_ne]
      rintro rfl
      exact hb ht

theorem types_extended_eq_distinct (c : Catalog) (ds : List BlockDefinition) :
    (c.extended ds).types = distinct (c.types ++ ds.map (·.blockType)) := by
  induction ds generalizing c with
  | nil => rw [map_nil, append_nil, distinct_types, extended, foldl_nil]
  | cons d ds ih =>
      have hstep : (c.extended (d :: ds)).types = _ := ih (c.insert d)
      rw [hstep, types_insert, map_cons]
      split
      · rename_i hd
        rw [distinct_append_cons_of_mem hd]
      · rw [append_assoc, singleton_append]

/-- The types of the old catalog keep their places, and new types come behind them. -/
theorem types_extended (c : Catalog) (ds : List BlockDefinition) :
    (c.extended ds).types =
      c.types ++ distinct ((ds.map (·.blockType)).filter (!c.types.contains ·)) := by
  rw [types_extended_eq_distinct, distinct_append, distinct_types, filter_distinct]

/-- The last definition of a type answers for it. -/
theorem get?_extended (c : Catalog) (ds : List BlockDefinition) (t : String) :
    (c.extended ds).get? t = (ds.filter (·.blockType == t)).getLast?.or (c.get? t) := by
  induction ds generalizing c with
  | nil => rfl
  | cons d ds ih =>
      have hstep : (c.extended (d :: ds)).get? t = _ := ih (c.insert d)
      rw [hstep, get?_insert, filter_cons]
      by_cases hd : d.blockType = t
      · simp only [hd, if_true, beq_self_eq_true, getLast?_cons]
        cases (ds.filter (·.blockType == t)).getLast? <;> rfl
      · simp [hd]

theorem extended_extended (c : Catalog) (ds : List BlockDefinition) :
    (c.extended ds).extended ds = c.extended ds := by
  refine eq_of_types ?_ fun t => ?_
  · have hold : (ds.map (·.blockType)).filter (!(c.extended ds).types.contains ·) = [] := by
      refine filter_eq_nil_iff.mpr fun t ht => ?_
      have hmem : t ∈ (c.extended ds).types := by
        rw [types_extended_eq_distinct, mem_distinct]
        exact mem_append_right _ ht
      simpa using hmem
    rw [types_extended, hold, distinct, append_nil]
  · rw [get?_extended (c.extended ds), get?_extended]
    cases (ds.filter (·.blockType == t)).getLast? <;> rfl

/-! ## Building -/

theorem put_of_notMem {blocks : List BlockDefinition} {d : BlockDefinition}
    (h : d.blockType ∉ blocks.map (·.blockType)) : put blocks d = blocks ++ [d] := by
  induction blocks with
  | nil => rfl
  | cons b rest ih =>
      obtain ⟨hb, hrest⟩ := not_or.mp (mt mem_cons.mpr h)
      simp [put, Ne.symm hb, ih hrest]

theorem contains_eq_false {c : Catalog} {t : String} (h : t ∉ c.types) : c.contains t = false := by
  rw [contains, get?, Option.isSome_eq_false_iff, Option.isNone_iff_eq_none, find?_eq_none]
  intro d hd heq
  exact h (beq_iff_eq.mp heq ▸ mem_map_of_mem hd)

/-- Definitions of new and distinct types are added one behind the other. -/
theorem foldlM_of_nodup (c : Catalog) (ds : List BlockDefinition)
    (h : ((c.blocks ++ ds).map (·.blockType)).Nodup) :
    ∃ c' : Catalog, c'.blocks = c.blocks ++ ds ∧
      ds.foldlM (fun c d => if c.contains d.blockType then .error (.duplicateBlockType d.blockType)
        else .ok (c.insert d)) c = (.ok c' : Outcome Catalog) := by
  induction ds generalizing c with
  | nil => exact ⟨c, (append_nil _).symm, rfl⟩
  | cons d ds ih =>
      have hnew : d.blockType ∉ c.types := by
        rw [map_append, map_cons] at h
        exact fun hd => (nodup_append.mp h).2.2 _ hd _ mem_cons_self rfl
      have hblocks : (c.insert d).blocks = c.blocks ++ [d] := put_of_notMem hnew
      have happend : c.blocks ++ d :: ds = (c.insert d).blocks ++ ds := by
        rw [hblocks, append_assoc, singleton_append]
      rw [happend] at h ⊢
      obtain ⟨c', hc', hrun⟩ := ih (c.insert d) h
      refine ⟨c', hc', ?_⟩
      rw [foldlM_cons, contains_eq_false hnew]
      exact hrun

/-- The blocks of a catalog are never refused. -/
theorem ofList_blocks (c : Catalog) : ofList c.blocks = .ok c := by
  obtain ⟨c', hc', hrun⟩ := foldlM_of_nodup empty c.blocks c.nodup
  rw [eq_of_blocks hc'] at hrun
  exact hrun

/-! ## Groups -/

/-- What groups of types owe to definitions: every type stands in one of them, once, and under the
category of its definition; a group has types, in the order of the definitions; and no two groups
are under one key. A text is the same key as itself alone. -/
structure Grouped (blocks : List BlockDefinition) (groups : List (Value × List String)) : Prop where
  once : groups.flatMap (·.2) ~ blocks.map (·.blockType)
  filed : ∀ g ∈ groups, ∀ t ∈ g.2, ∃ d ∈ blocks, d.blockType = t ∧
    (g.1 = d.category ∨ g.1.sameKey d.category = true)
  ordered : ∀ g ∈ groups, g.2 <+ blocks.map (·.blockType)
  filled : ∀ g ∈ groups, g.2 ≠ []
  apart : (groups.map (·.1)).Pairwise fun k l => k.sameKey l = false

variable {blocks : List BlockDefinition} {groups : List (Value × List String)}

/-- A type joins a group under its category, or it starts a group if there is none. -/
theorem putInGroup_cases (groups : List (Value × List String)) (d : BlockDefinition) :
    (∃ front key types back, groups = front ++ (key, types) :: back ∧
      key.sameKey d.category = true ∧
      putInGroup groups d = front ++ (key, types ++ [d.blockType]) :: back) ∨
    ((∀ g ∈ groups, g.1.sameKey d.category = false) ∧
      putInGroup groups d = groups ++ [(d.category, [d.blockType])]) := by
  induction groups with
  | nil => exact .inr ⟨fun g hg => (not_mem_nil hg).elim, rfl⟩
  | cons g rest ih =>
      obtain ⟨key, types⟩ := g
      by_cases hkey : key.sameKey d.category = true
      · exact .inl ⟨[], key, types, rest, rfl, hkey, if_pos hkey⟩
      · have hput : putInGroup ((key, types) :: rest) d = (key, types) :: putInGroup rest d :=
          if_neg hkey
        rcases ih with ⟨front, key', types', back, rfl, hkey', hrest⟩ | ⟨hnone, hrest⟩
        · exact .inl ⟨(key, types) :: front, key', types', back, rfl, hkey', by
            rw [hput, hrest, cons_append]⟩
        · exact .inr ⟨forall_mem_cons.mpr ⟨Bool.eq_false_iff.mpr hkey, hnone⟩, by
            rw [hput, hrest, cons_append]⟩

theorem Grouped.filed_append (h : Grouped blocks groups) (d : BlockDefinition) :
    ∀ g ∈ groups, ∀ t ∈ g.2, ∃ e ∈ blocks ++ [d], e.blockType = t ∧
      (g.1 = e.category ∨ g.1.sameKey e.category = true) := by
  intro g hg t ht
  obtain ⟨e, he, hrest⟩ := h.filed g hg t ht
  exact ⟨e, mem_append_left _ he, hrest⟩

theorem Grouped.ordered_append (h : Grouped blocks groups) (d : BlockDefinition) :
    ∀ g ∈ groups, g.2 <+ (blocks ++ [d]).map (·.blockType) :=
  fun g hg => (h.ordered g hg).trans ((sublist_append_left blocks [d]).map _)

theorem Grouped.join {front back : List (Value × List String)} {key : Value} {types : List String}
    {d : BlockDefinition} (h : Grouped blocks (front ++ (key, types) :: back))
    (hkey : key.sameKey d.category = true) :
    Grouped (blocks ++ [d]) (front ++ (key, types ++ [d.blockType]) :: back) := by
  have hmem : (key, types) ∈ front ++ (key, types) :: back := by simp
  have hcases : ∀ g ∈ front ++ (key, types ++ [d.blockType]) :: back,
      g ∈ front ++ (key, types) :: back ∨ g = (key, types ++ [d.blockType]) := by
    simp only [mem_append, mem_cons]
    tauto
  refine ⟨?_, ?_, ?_, ?_, ?_⟩
  · have honce : front.flatMap (·.2) ++ (types ++ back.flatMap (·.2)) ~ blocks.map (·.blockType) := by
      simpa using h.once
    calc (front ++ (key, types ++ [d.blockType]) :: back).flatMap (·.2)
        = front.flatMap (·.2) ++ (types ++ ([d.blockType] ++ back.flatMap (·.2))) := by simp
      _ ~ front.flatMap (·.2) ++ (types ++ (back.flatMap (·.2) ++ [d.blockType])) :=
          (perm_append_comm.append_left types).append_left _
      _ = front.flatMap (·.2) ++ (types ++ back.flatMap (·.2)) ++ [d.blockType] := by simp
      _ ~ (blocks ++ [d]).map (·.blockType) := by
          rw [map_append]
          exact honce.append_right _
  · intro g hg t ht
    rcases hcases g hg with hg | rfl
    · exact h.filed_append d g hg t ht
    · rcases mem_append.mp ht with ht | ht
      · exact h.filed_append d _ hmem t ht
      · rw [mem_singleton.mp ht]
        exact ⟨d, mem_append_right _ mem_cons_self, rfl, .inr hkey⟩
  · intro g hg
    rcases hcases g hg with hg | rfl
    · exact h.ordered_append d g hg
    · rw [map_append]
      exact (h.ordered _ hmem).append (Sublist.refl _)
  · intro g hg
    rcases hcases g hg with hg | rfl
    · exact h.filled g hg
    · exact append_ne_nil_of_right_ne_nil _ (cons_ne_nil _ _)
  · simpa using h.apart

theorem Grouped.start {d : BlockDefinition} (h : Grouped blocks groups)
    (hnone : ∀ g ∈ groups, g.1.sameKey d.category = false) :
    Grouped (blocks ++ [d]) (groups ++ [(d.category, [d.blockType])]) := by
  refine ⟨?_, ?_, ?_, ?_, ?_⟩
  · rw [flatMap_append, map_append]
    exact h.once.append (.of_eq rfl)
  · intro g hg t ht
    rcases mem_append.mp hg with hg | hg
    · exact h.filed_append d g hg t ht
    · rw [mem_singleton.mp hg] at ht ⊢
      rw [mem_singleton.mp ht]
      exact ⟨d, mem_append_right _ mem_cons_self, rfl, .inl rfl⟩
  · intro g hg
    rcases mem_append.mp hg with hg | hg
    · exact h.ordered_append d g hg
    · rw [mem_singleton.mp hg, map_append]
      exact sublist_append_right _ _
  · intro g hg
    rcases mem_append.mp hg with hg | hg
    · exact h.filled g hg
    · rw [mem_singleton.mp hg]
      exact cons_ne_nil _ _
  · rw [map_append]
    refine pairwise_append.mpr ⟨h.apart, pairwise_singleton _ _, fun k hk l hl => ?_⟩
    obtain ⟨g, hg, rfl⟩ := mem_map.mp hk
    rw [mem_singleton.mp hl]
    exact hnone g hg

/-- Groups that are settled for some definitions stay so when one more type is put in. -/
theorem Grouped.put (h : Grouped blocks groups) (d : BlockDefinition) :
    Grouped (blocks ++ [d]) (putInGroup groups d) := by
  rcases putInGroup_cases groups d with ⟨front, key, types, back, rfl, hkey, hput⟩ | ⟨hnone, hput⟩
  · rw [hput]
    exact h.join hkey
  · rw [hput]
    exact h.start hnone

theorem grouped_foldl (h : Grouped blocks groups) (ds : List BlockDefinition) :
    Grouped (blocks ++ ds) (ds.foldl putInGroup groups) := by
  induction ds generalizing blocks groups with
  | nil => rwa [append_nil]
  | cons d ds ih =>
      rw [append_cons]
      exact ih (h.put d)

theorem categories_eq_ok {c : Catalog} : c.categories = .ok groups ↔
    (∀ d ∈ c.blocks, d.category.hashable = true) ∧ groups = c.blocks.foldl putInGroup [] := by
  rw [categories]
  split
  · rename_i h
    rw [Except.ok.injEq]
    exact ⟨fun e => ⟨all_eq_true.mp h, e.symm⟩, fun e => e.2.symm⟩
  · rename_i h
    exact ⟨fun e => (nomatch e), fun e => absurd (all_eq_true.mpr e.1) h⟩

/-- The categories of a catalog deal out its types. -/
theorem categories_grouped {c : Catalog} (h : c.categories = .ok groups) :
    Grouped c.blocks groups := by
  have hstart : Grouped [] [] := ⟨.refl _, by simp, by simp, by simp, by simp⟩
  rw [(categories_eq_ok.mp h).2]
  exact grouped_foldl hstart c.blocks

/-- Categories are there if each of them can be a key, as every text can. -/
theorem exists_categories_iff (c : Catalog) : (∃ groups, c.categories = .ok groups) ↔
    ∀ d ∈ c.blocks, d.category.hashable = true :=
  ⟨fun ⟨_, h⟩ => (categories_eq_ok.mp h).1, fun h => ⟨_, categories_eq_ok.mpr ⟨h, rfl⟩⟩⟩

/-- What a catalog owes to the catalog and the definitions that it extends: it is built of the blocks
with the definitions put in, which are never refused; a type that some of the definitions have means
the last of them, and any other type what it meant; new types come behind the old ones, in order of
first appearance; and extending it by the same definitions changes nothing. -/
structure Extends (c : Catalog) (ds : List BlockDefinition) (c' : Catalog) : Prop where
  built : ofList (ds.foldl put c.blocks) = .ok c'
  meaning : ∀ t, c'.get? t = (ds.filter (·.blockType == t)).getLast?.or (c.get? t)
  types : c'.types = c.types ++ distinct ((ds.map (·.blockType)).filter (!c.types.contains ·))
  again : c'.extended ds = c'

/-- Extending a catalog by any definitions succeeds. The categories of a catalog, which are there if
each can be a key, are a partition of its types. -/
theorem extended_extends (c : Catalog) (ds : List BlockDefinition) :
    c.Extends ds (c.extended ds) ∧
      ((∃ groups, c.categories = .ok groups) ↔ ∀ d ∈ c.blocks, d.category.hashable = true) ∧
      ∀ groups, c.categories = .ok groups → Grouped c.blocks groups := by
  refine ⟨⟨?_, get?_extended c ds, types_extended c ds, extended_extended c ds⟩,
    exists_categories_iff c, fun _ => categories_grouped⟩
  rw [← blocks_extended]
  exact ofList_blocks _

/-- A catalog of three types in two categories, of which one is replaced twice. -/
theorem extended_extends_replaced :
    let block (type category : String) : BlockDefinition :=
      ⟨type, [], [], [], .text category, .text "", false⟩
    let c := empty.extended [block "In" "Core", block "Sum" "Joining", block "Out" "Core"]
    let c' := c.extended [block "Sum" "Core", block "Mean" "Joining", block "Sum" "Odd"]
    c'.types = ["In", "Sum", "Out", "Mean"] ∧
      c'.get? "Sum" = some (block "Sum" "Odd") ∧ c'.get? "Out" = some (block "Out" "Core") ∧
      Grouped c.blocks [(.text "Core", ["In", "Out"]), (.text "Joining", ["Sum"])] := by
  intro block c c'
  obtain ⟨⟨-, hmeaning, htypes, -⟩, -, hgroups⟩ := extended_extends c
    [block "Sum" "Core", block "Mean" "Joining", block "Sum" "Odd"]
  have hok : c.categories = .ok [(.text "Core", ["In", "Out"]), (.text "Joining", ["Sum"])] := rfl
  refine ⟨?_, hmeaning "Sum", hmeaning "Out", hgroups _ hok⟩
  rw [htypes]
  decide

end BlockNet.Catalog
