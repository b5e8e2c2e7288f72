import QueryViews.Conceptual.Hierarchy
import QueryViews.Store
import QueryViews.Mapping
import QueryViews.OrderedMap

/-!
# Schemas

A schema is a conceptual side, a store side and the mapping between them. Here are the questions
that need more than one of the three: which container an extent belongs to, which conceptual
container stands for either side of a pair, the qualified names of extents, and the extents of a
pair.
-/

namespace QueryViews

/-- The conceptual side, the store side, and how the one is mapped to the other. -/
structure Schema where
  conceptual : Conceptual
  store : Store
  mapping : Mapping

namespace Schema

/-- The schema in which nothing is declared. -/
def empty : Schema := ⟨⟨[], [], []⟩, ⟨[], []⟩, ⟨[]⟩⟩

/-- The container that an extent is declared in. -/
def containerOf (s : Schema) : Extent → Except Fault ContainerRef
  | .entitySet id => .ok (.conceptual id.container)
  | .associationSet id => .ok (.conceptual id.container)
  | .table id => do return .store (← s.store.table id).container

/-- The conceptual container that stands for a pair, given either side. -/
def canonicalContainer? (s : Schema) : ContainerRef → Option ContainerId
  | .conceptual id => (s.mapping.container? id).map fun _ => id
  | .store id => (s.mapping.containerForStore? id).map ContainerMapping.conceptual

/-- The qualified name of an extent: its container, a point, and its own name. -/
def extentName (s : Schema) : Extent → Except Fault String
  | .entitySet id => do
    let owner ← s.conceptual.container id.container
    let set ← s.conceptual.entitySet id
    return s!"{owner.name}.{set.name}"
  | .associationSet id => do
    let owner ← s.conceptual.container id.container
    let set ← s.conceptual.associationSet id
    return s!"{owner.name}.{set.name}"
  | .table id => do
    let table ← s.store.table id
    let owner ← s.store.container table.container
    return s!"{owner.name}.{table.name}"

/-- The extents of a conceptual container: its entity sets, then its association sets. -/
def conceptualExtents (id : ContainerId) (c : Container) : List Extent :=
  ((List.range c.entitySets.length).map fun index => .entitySet ⟨id, index⟩) ++
    (List.range c.associationSets.length).map fun index => .associationSet ⟨id, index⟩

/-- Every extent on both sides of a mapped pair: entity sets, association sets, tables. -/
def extents (s : Schema) (id : ContainerId) : Except Fault (List Extent) := do
  let mapping ← s.mapping.container id
  let owner ← s.conceptual.container id
  let tables ← s.store.tablesIn mapping.store
  return conceptualExtents id owner ++ tables.map fun (t, _) => .table t

/-- The extents of a pair under their qualified names. Of two extents of one name, the later one
is found under it, at the place of the earlier. -/
def extentsByName (s : Schema) (id : ContainerId) : Except Fault (OrderedMap String Extent) := do
  let named ← (← s.extents id).mapM fun e => do return (← s.extentName e, e)
  return OrderedMap.ofList named

/-- The name of a pair: the names of its two containers around a colon. -/
def pairName (s : Schema) (id : ContainerId) : Except Fault String := do
  let mapping ← s.mapping.container id
  let conceptual ← s.conceptual.container mapping.conceptual
  let store ← s.store.container mapping.store
  return s!"{conceptual.name}:{store.name}"

/-- The element type of an entity set. -/
def elementType (s : Schema) (id : EntitySetId) : Except Fault ModelId := do
  return (← s.conceptual.entitySet id).model

end Schema

end QueryViews
