import BlockNet.Catalog.Block
/-! # Catalogs of block types

A catalog lists block definitions, one per type, in a fixed order. -/

namespace BlockNet

/-- Block definitions with distinct types. -/
structure Catalog where
  blocks : List BlockDefinition
  nodup : (blocks.map (·.blockType)).Nodup

namespace Catalog

/-- The block types in order. -/
def types (c : Catalog) : List String := c.blocks.map (·.blockType)

/-- The number of block types. -/
def size (c : Catalog) : Nat := c.blocks.length

/-- The definition of a block type. -/
def get? (c : Catalog) (blockType : String) : Option BlockDefinition :=
  c.blocks.find? (·.blockType == blockType)

/-- Does the catalog define a block type? -/
def contains (c : Catalog) (blockType : String) : Bool := (c.get? blockType).isSome

/-- The definition that a block type must have. -/
def require (c : Catalog) (blockType : String) : Outcome BlockDefinition :=
  match c.get? blockType with
  | some d => .ok d
  | none => .error (.unknownBlockType blockType)

/-- Does a block type become a layer? -/
def isComputational (c : Catalog) (blockType : String) : Bool :=
  match c.get? blockType with
  | some d => d.computational
  | none => false

/-- The block types that become layers. -/
def computationalTypes (c : Catalog) : List String :=
  (c.blocks.filter (·.computational)).map (·.blockType)

/-- Adds a block type to the group of a category, at the end of the groups if there is none. -/
def putInGroup (groups : List (Value × List String)) (d : BlockDefinition) :
    List (Value × List String) :=
  match groups with
  | [] => [(d.category, [d.blockType])]
  | (category, types) :: rest =>
      if category.sameKey d.category then (category, types ++ [d.blockType]) :: rest
      else (category, types) :: putInGroup rest d

/-- The categories in order of first use, each with its block types. A category must be able to
be a key. -/
def categories (c : Catalog) : Outcome (List (Value × List String)) :=
  if c.blocks.all (·.category.hashable) then .ok (c.blocks.foldl putInGroup [])
  else mishap .wrongType

/-- Puts a definition into a list: in the place of the one with its type, else at the end. -/
def put (blocks : List BlockDefinition) (d : BlockDefinition) : List BlockDefinition :=
  match blocks with
  | [] => [d]
  | b :: rest => if b.blockType == d.blockType then d :: rest else b :: put rest d

/-- Putting a definition keeps the types, or adds its type at the end. -/
theorem types_put (blocks : List BlockDefinition) (d : BlockDefinition) :
    (put blocks d).map (·.blockType) =
      if d.blockType ∈ blocks.map (·.blockType) then blocks.map (·.blockType)
      else blocks.map (·.blockType) ++ [d.blockType] := by
  induction blocks with
  | nil => simp [put]
  | cons b rest ih =>
    by_cases h : b.blockType = d.blockType
    · simp [put, h]
    · have h' : d.blockType ≠ b.blockType := fun e => h e.symm
      simp only [put, beq_iff_eq, h, if_false, List.map_cons, ih, List.mem_cons, h', false_or]
      split <;> simp

/-- Putting a definition keeps types distinct. -/
theorem nodup_put {blocks : List BlockDefinition} (d : BlockDefinition)
    (h : (blocks.map (·.blockType)).Nodup) : ((put blocks d).map (·.blockType)).Nodup := by
  rw [types_put]
  split
  · exact h
  · next hd =>
    refine List.nodup_append.2 ⟨h, by simp, fun a ha b hb e => hd ?_⟩
    rw [List.mem_singleton] at hb
    exact hb ▸ e ▸ ha

/-- The catalog with a definition added, or put in place of the one with its type. -/
def insert (c : Catalog) (d : BlockDefinition) : Catalog :=
  ⟨put c.blocks d, nodup_put d c.nodup⟩

/-- The catalog with definitions added or replaced, one after the other. -/
def extended (c : Catalog) (definitions : List BlockDefinition) : Catalog :=
  definitions.foldl insert c

/-- The catalog without block types. -/
def empty : Catalog := ⟨[], by simp⟩

/-- The catalog of definitions, refused if two of them share a type. -/
def ofList (definitions : List BlockDefinition) : Outcome Catalog :=
  definitions.foldlM
    (fun c d => if c.contains d.blockType then .error (.duplicateBlockType d.blockType)
      else .ok (c.insert d)) empty

end Catalog

end BlockNet
