import BlockNet.Schedule
import BlockNet.Value.Reading
/-! # Ordering by keys

A graph may be given by values alone: ids, edges that are pairs of ids, and sources. Ids are then the
same if they are the same key, though they may look different: the schedule spells an id as the list
of ids or the edge does that led to it. -/

namespace BlockNet

/-- An id and its place among all ids. -/
structure PlacedId where
  place : Nat
  id : Value

/-- Placed ids are told apart by their places. -/
instance : BEq PlacedId := ⟨fun a b => a.place == b.place⟩

/-- The id at its place among ids, if it is there. What cannot be a key is no id. -/
def placeAmong (ids : List Value) (id : Value) : Outcome (Option PlacedId) :=
  if id.hashable then .ok ((ids.findIdx? (·.sameKey id)).map (⟨·, id⟩)) else mishap .wrongType

/-- The ids with another one behind them, unless it is there. -/
def addId (ids : List Value) (id : Value) : Outcome (List Value) := do
  match ← placeAmong ids id with
  | some _ => .ok ids
  | none => .ok (ids ++ [id])

/-- The ends of an edge, if both are there. -/
def endsAmong (ids : List Value) (edge : Value) : Outcome (Option (PlacedId × PlacedId)) := do
  match ← edge.toList with
  | [source, target] =>
      match ← placeAmong ids source with
      | none => .ok none
      | some i => do .ok ((← placeAmong ids target).map (i, ·))
  | _ => mishap .unreadable

/-- The schedule of ids under edges, which values list. -/
def Schedule.ofValues (nodes edges sources : Value) : Outcome (Schedule Value) := do
  let ids ← (← nodes.toList).foldlM addId []
  let edges ← (← edges.toList).mapM (endsAmong ids)
  let sources ← (← sources.toList).mapM (placeAmong ids)
  let placed := ids.mapIdx fun place id => ⟨place, id⟩
  let s := Schedule.ofGraph placed (edges.filterMap id) (sources.filterMap id)
  .ok ⟨s.order.map (·.id), s.backEdges.map fun e => (e.1.id, e.2.id)⟩

end BlockNet
