/-!
# Identifiers

Everything a schema declares is addressed by its position: models, associations and containers
by their place in the schema, fields, sets and columns by their place in their owner. One type
per kind of thing, so that an id of one kind cannot be used for another.

An `Extent` is what a view can be asked for, and a `ContainerRef` either side of a mapped pair of
containers. The `ToString` instances give the form in which ids appear in messages and answers.
-/

namespace QueryViews

/-- A conceptual type, by its place in the schema. -/
structure ModelId where
  index : Nat
  deriving DecidableEq

/-- A field, by its place in the model that declares it. -/
structure FieldId where
  model : ModelId
  index : Nat
  deriving DecidableEq

/-- A relationship type, by its place in the schema. -/
structure AssociationId where
  index : Nat
  deriving DecidableEq

/-- One end of a relationship type. -/
structure EndId where
  association : AssociationId
  index : Nat
  deriving DecidableEq

/-- A conceptual container, by its place in the schema. -/
structure ContainerId where
  index : Nat
  deriving DecidableEq

/-- A store container, by its place in the schema. -/
structure StoreId where
  index : Nat
  deriving DecidableEq

/-- An entity set, by its place in its container. -/
structure EntitySetId where
  container : ContainerId
  index : Nat
  deriving DecidableEq

/-- An association set, by its place in its container. -/
structure AssociationSetId where
  container : ContainerId
  index : Nat
  deriving DecidableEq

/-- A store table, by its place in the schema. -/
structure TableId where
  index : Nat
  deriving DecidableEq

/-- A column, by its place in its table. -/
structure ColumnId where
  table : TableId
  index : Nat
  deriving DecidableEq

/-- What a view can be asked for: an entity set, an association set or a store table. -/
inductive Extent
  | entitySet (id : EntitySetId)
  | associationSet (id : AssociationSetId)
  | table (id : TableId)
  deriving DecidableEq

/-- Either side of a mapped pair of containers. -/
inductive ContainerRef
  | conceptual (id : ContainerId)
  | store (id : StoreId)
  deriving DecidableEq

/-- The conceptual container an extent is declared in; a table has none. -/
def Extent.container? : Extent → Option ContainerId
  | .entitySet id => some id.container
  | .associationSet id => some id.container
  | .table _ => none

/-- The entity set an extent is, if it is one. -/
def Extent.entitySet? : Extent → Option EntitySetId
  | .entitySet id => some id
  | _ => none

/-! ## Written forms -/

instance : ToString ModelId := ⟨fun m => s!"ModelId({m.index})"⟩

instance : ToString FieldId := ⟨fun f => s!"FieldId({f.model.index}/{f.index})"⟩

instance : ToString AssociationId := ⟨fun a => s!"AssociationId({a.index})"⟩

instance : ToString EndId := ⟨fun e => s!"AssociationEndId({e.association.index}/{e.index})"⟩

instance : ToString ContainerId := ⟨fun c => s!"ContainerId({c.index})"⟩

instance : ToString StoreId := ⟨fun s => s!"db::ContainerId({s.index})"⟩

instance : ToString EntitySetId := ⟨fun s => s!"EntitySetId({s.container.index}/{s.index})"⟩

instance : ToString AssociationSetId :=
  ⟨fun s => s!"AssociationSetId({s.container.index}/{s.index})"⟩

instance : ToString TableId := ⟨fun t => s!"TableId({t.index})"⟩

instance : ToString ColumnId := ⟨fun c => s!"ColumnId({c.table.index}/{c.index})"⟩

instance : ToString Extent where
  toString
    | .entitySet id => s!"EntitySet({id})"
    | .associationSet id => s!"AssociationSet({id})"
    | .table id => s!"Table({id})"

instance : ToString ContainerRef where
  toString
    | .conceptual id => s!"Conceptual({id})"
    | .store id => s!"Store({id})"

end QueryViews
