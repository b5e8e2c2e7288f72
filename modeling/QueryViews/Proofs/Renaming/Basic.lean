import QueryViews.Proofs.Outcome
import QueryViews.Schema.Basic
import Mathlib.Logic.Equiv.Defs

/-!
# Renaming ids

A `Renaming` takes each id of one schema to an id of another one, one to one; what is declared in a
thing is renamed within the new id of that thing. An end of a relationship keeps its place, since
the order of ends carries meaning.

Two schemas **correspond** under a renaming (`Corresponds`) when each look-up of an id in the one
and of its new id in the other agree: both find nothing, or both find the same, told in new ids.
Places play no part, so everything may have been declared in another order.
-/

namespace QueryViews

/-- New ids for old ones, one to one. -/
structure Renaming where
  model : ModelId ≃ ModelId
  field : FieldId ≃ FieldId
  association : AssociationId ≃ AssociationId
  container : ContainerId ≃ ContainerId
  entitySet : EntitySetId ≃ EntitySetId
  associationSet : AssociationSetId ≃ AssociationSetId
  store : StoreId ≃ StoreId
  table : TableId ≃ TableId
  column : ColumnId ≃ ColumnId
  model_field : ∀ id, (field id).model = model id.model
  container_entitySet : ∀ id, (entitySet id).container = container id.container
  container_associationSet : ∀ id, (associationSet id).container = container id.container
  table_column : ∀ id, (column id).table = table id.table

namespace Renaming

variable (ρ : Renaming)

/-! ## Told in new ids -/

/-- The new id of an end. Ends keep their order. -/
def endId (id : EndId) : EndId := ⟨ρ.association id.association, id.index⟩

/-- The new id of an extent. -/
def extent : Extent → Extent
  | .entitySet id => .entitySet (ρ.entitySet id)
  | .associationSet id => .associationSet (ρ.associationSet id)
  | .table id => .table (ρ.table id)

/-- The type of a field, by its new ids. -/
def fieldType : FieldType → FieldType
  | .scalar type => .scalar type
  | .embedded target => .embedded (ρ.model target)
  | .navigation association near far => .navigation (ρ.association association) near far

/-- A field, by its new ids. -/
def fieldOf (f : Field) : Field := { f with type := ρ.fieldType f.type }

/-- The kind of a type, by its new ids. The key keeps its order. -/
def kind : ModelKind → ModelKind
  | .entity e => .entity ⟨e.base.map ρ.model, e.isAbstract, e.key.map ρ.field⟩
  | .embedded => .embedded

/-- An end, by the new id of its type. -/
def associationEnd (e : AssociationEnd) : AssociationEnd := { e with model := ρ.model e.model }

/-- A pair of a constraint, by the new ids of both fields. -/
def pair (p : ForeignKeyField) : ForeignKeyField := ⟨ρ.field p.source, ρ.field p.target⟩

/-- An entity set, by the new id of its type. -/
def entitySetOf (set : EntitySet) : EntitySet := ⟨set.name, ρ.model set.model⟩

/-- An association set, by its new ids. -/
def associationSetOf (set : AssociationSet) : AssociationSet :=
  ⟨set.name, ρ.association set.association,
    ⟨ρ.entitySet set.ends.first, ρ.entitySet set.ends.second⟩⟩

/-- A field and its column, by their new ids. -/
def binding (b : ColumnBinding) : ColumnBinding := ⟨ρ.field b.field, ρ.column b.column⟩

/-- What a condition is about, by its new id. -/
def target : ConditionTarget → ConditionTarget
  | .field id => .field (ρ.field id)
  | .column id => .column (ρ.column id)

/-- A condition, by the new id of what it is about. -/
def condition (c : Condition) : Condition := { c with target := ρ.target c.target }

/-- What a parameter is taken from, by its new ids. A path keeps its order. -/
def member : ParameterMember → ParameterMember
  | .path fields => .path (fields.map ρ.field)
  | .farEnd id field => .farEnd (ρ.endId id) (ρ.field field)

/-- A parameter of a function, by the new ids of what it is taken from. -/
def parameter (p : ParameterBinding) : ParameterBinding := { p with member := ρ.member p.member }

/-- The view of a type, by the new id of the type. -/
def typeView (v : TypeView) : TypeView := { v with type := ρ.model v.type }

/-! ## Declarations that correspond -/

/-- The same type but for its fields, which are looked up by their own ids. -/
structure Model (m m' : QueryViews.Model) : Prop where
  name : m.name = m'.name
  kind : ρ.kind m.kind = m'.kind

/-- The same constraint, its pairs in whatever order. -/
structure ForeignKey (fk fk' : QueryViews.ForeignKey) : Prop where
  principal : fk.principal = fk'.principal
  fields : (fk.fields.map ρ.pair).Perm fk'.fields

/-- The same relationship, its ends in order and its constraints in whatever order. -/
structure Association (a a' : QueryViews.Association) : Prop where
  name : a.name = a'.name
  first : ρ.associationEnd a.ends.first = a'.ends.first
  second : ρ.associationEnd a.ends.second = a'.ends.second
  constraints : Rearranged ρ.ForeignKey a.constraints a'.constraints
  isForeignKey : a.isForeignKey = a'.isForeignKey
  isAbstract : a.isAbstract = a'.isAbstract

/-- The same store container, its tables in whatever order. -/
structure StoreContainer (c c' : QueryViews.StoreContainer) : Prop where
  name : c.name = c'.name
  tables : (c.tables.map ρ.table).Perm c'.tables

/-- The same table but for its columns, which are looked up by their own ids. -/
structure Table (t t' : QueryViews.Table) : Prop where
  container : ρ.store t.container = t'.container
  name : t.name = t'.name

/-! ## Mappings that correspond -/

/-- The same property mapping, what is inside it in whatever order at every depth. -/
inductive Property : PropertyMapping → PropertyMapping → Prop
  | scalar (b : ColumnBinding) : Property (.scalar b) (.scalar (ρ.binding b))
  | embedded (field : FieldId) {properties properties' : List PropertyMapping} :
    Multiset.Rel Property (properties : Multiset PropertyMapping)
      (properties' : Multiset PropertyMapping) →
      Property (.embedded field properties) (.embedded (ρ.field field) properties')
  | ends (id : EndId) {bindings bindings' : List ColumnBinding} :
    (bindings.map ρ.binding).Perm bindings' →
      Property (.ends id bindings) (.ends (ρ.endId id) bindings')

/-- The same fragment, its properties and conditions in whatever order. -/
structure Fragment (f f' : QueryViews.Fragment) : Prop where
  table : ρ.table f.table = f'.table
  properties : Rearranged ρ.Property f.properties f'.properties
  conditions : (f.conditions.map ρ.condition).Perm f'.conditions

/-- The same mapping of types, its types and fragments in whatever order. -/
structure TypeMapping (m m' : QueryViews.TypeMapping) : Prop where
  types : (m.types.map ρ.model).Perm m'.types
  isOfTypes : (m.isOfTypes.map ρ.model).Perm m'.isOfTypes
  fragments : Rearranged ρ.Fragment m.fragments m'.fragments

/-- The same function, its parameters in whatever order. -/
structure Function (f f' : FunctionMapping) : Prop where
  type : ρ.model f.type = f'.type
  kind : f.kind = f'.kind
  function : f.function = f'.function
  parameters : (f.parameters.map ρ.parameter).Perm f'.parameters

/-- The same mapping of an extent, all that it lists in whatever order. -/
structure ExtentMapping (m m' : QueryViews.ExtentMapping) : Prop where
  extent : ρ.extent m.extent = m'.extent
  queryView : m.queryView = m'.queryView
  typeViews : (m.typeViews.map ρ.typeView).Perm m'.typeViews
  typeMappings : Rearranged ρ.TypeMapping m.typeMappings m'.typeMappings
  functions : Rearranged ρ.Function m.functions m'.functions

/-- The same pair of containers, its extents in whatever order. -/
structure ContainerMapping (m m' : QueryViews.ContainerMapping) : Prop where
  conceptual : ρ.container m.conceptual = m'.conceptual
  store : ρ.store m.store = m'.store
  extents : Rearranged ρ.ExtentMapping m.extents m'.extents

/-- Schemas that declare the same under a renaming, whatever their mappings. -/
structure Corresponds (s s' : Schema) : Prop where
  model : ∀ id, Agree ρ.Model (s.conceptual.model id) (s'.conceptual.model (ρ.model id))
  field : ∀ id, Agree (fun f f' => ρ.fieldOf f = f') (s.conceptual.field id)
    (s'.conceptual.field (ρ.field id))
  association : ∀ id, Agree ρ.Association (s.conceptual.association id)
    (s'.conceptual.association (ρ.association id))
  container : ∀ id, Agree (fun c c' => c.name = c'.name) (s.conceptual.container id)
    (s'.conceptual.container (ρ.container id))
  entitySet : ∀ id, Agree (fun set set' => ρ.entitySetOf set = set') (s.conceptual.entitySet id)
    (s'.conceptual.entitySet (ρ.entitySet id))
  associationSet : ∀ id, Agree (fun set set' => ρ.associationSetOf set = set')
    (s.conceptual.associationSet id) (s'.conceptual.associationSet (ρ.associationSet id))
  store : ∀ id, Agree ρ.StoreContainer (s.store.container id) (s'.store.container (ρ.store id))
  table : ∀ id, Agree ρ.Table (s.store.table id) (s'.store.table (ρ.table id))
  column : ∀ id, Agree (· = ·) (s.store.column id) (s'.store.column (ρ.column id))

/-- Schemas whose mappings of a container, if it is mapped, correspond too. -/
structure Carries (s s' : Schema) (id : ContainerId) : Prop extends ρ.Corresponds s s' where
  mapping : Option.Rel ρ.ContainerMapping (s.mapping.container? id)
    (s'.mapping.container? (ρ.container id))

end Renaming

end QueryViews
