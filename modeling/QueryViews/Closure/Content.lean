import QueryViews.Closure.Reach
import QueryViews.Schema.Basic
import QueryViews.Text.Blank

/-!
# What a mapping says, by name

The content of a mapped pair of containers with everything that it refers to, told without ids:
every element goes by its name. Two mappings that say the same have the same content up to the
order of those lists whose order carries no meaning. View texts stand in it with their blanks
collapsed.

Content is what a closure hash is taken of; how it becomes bytes is another module's matter.
-/

namespace QueryViews

namespace Content

/-- A field, by the name of the type that declares it and its own. -/
structure FieldName where
  owner : String
  name : String
  deriving DecidableEq

/-- A column, by the name of its table and its own. -/
structure ColumnName where
  table : String
  name : String
  deriving DecidableEq

/-- An end, by the name of its relationship and its role. -/
structure EndName where
  association : String
  role : String
  deriving DecidableEq

/-- A set of entities, with the name of their type. -/
structure EntitySet where
  name : String
  type : String
  deriving DecidableEq

/-- A set of relationships, with the names of the association and of the entity sets at its two
ends. -/
structure AssociationSet where
  name : String
  association : String
  ends : Ends String
  deriving DecidableEq

/-- The type of a field. Types and associations go by their names. -/
inductive FieldType
  | scalar (type : ScalarType)
  | embedded (type : String)
  /-- the far end is the other one of the two -/
  | navigation (association : String) (near : Nat)
  deriving DecidableEq

/-- A field of a type. That it is a key field is told by the type, since the order of key fields
counts. -/
structure Field where
  name : String
  nullable : Bool
  isToken : Bool
  type : FieldType
  deriving DecidableEq

/-- What is said of a type as a whole: an entity type has a base, and a key in its order. -/
inductive TypeKind
  | entity (base : Option String) (isAbstract : Bool) (key : List FieldName)
  | embedded
  deriving DecidableEq

/-- A type with the fields that it declares itself. -/
structure TypeContent where
  name : String
  kind : TypeKind
  fields : List Field
  deriving DecidableEq

/-- An end of an association: its role, and the type and number of what is there. -/
structure AssociationEnd where
  role : String
  type : String
  multiplicity : Multiplicity
  deriving DecidableEq

/-- A referential constraint, which makes key fields of one end equal to fields of the other. -/
structure ForeignKey where
  /-- the dependent end is the other one of the two -/
  principal : Nat
  /-- each source field with the key field it refers to -/
  fields : List (FieldName × FieldName)
  deriving DecidableEq

/-- An association with its constraints; the order of its two ends counts. -/
structure Association where
  name : String
  isForeignKey : Bool
  isAbstract : Bool
  ends : Ends AssociationEnd
  constraints : List ForeignKey
  deriving DecidableEq

/-- A table with its columns. -/
structure Table where
  name : String
  columns : List Column
  deriving DecidableEq

/-- A query view that the user wrote for the entities of a type in a set. -/
structure TypeView where
  type : String
  includeSubtypes : Bool
  text : String
  deriving DecidableEq

/-- How a property is stored: a field in a column, the fields of an embedded value one by one, or an
end in the columns for the key of what is there. -/
inductive Property
  | scalar (field : FieldName) (column : ColumnName)
  | embedded (field : FieldName) (properties : List Property)
  | ends (name : EndName) (bindings : List (FieldName × ColumnName))

/-- What a condition is about: a field of the entity, or a column of the row. -/
inductive Target
  | field (name : FieldName)
  | column (name : ColumnName)
  deriving DecidableEq

/-- A condition that rows of a fragment meet. -/
structure Condition where
  target : Target
  predicate : ConditionPredicate
  deriving DecidableEq

/-- A table that stores entities of a mapping in the rows that meet the conditions. -/
structure Fragment where
  table : String
  properties : List Property
  conditions : List Condition

/-- How entities of some types are stored: those of exactly these types, and those of these types
and all below them. -/
structure TypeMapping where
  types : List String
  isOfTypes : List String
  fragments : List Fragment

/-- What a parameter of a function is taken from: a path through embedded fields, or a key field of
what is at a far end. -/
inductive Member
  | path (fields : List FieldName)
  | farEnd (name : EndName) (field : FieldName)
  deriving DecidableEq

/-- A parameter of a function, with the version of the value that it takes. -/
structure Parameter where
  name : String
  version : ParameterVersion
  member : Member
  deriving DecidableEq

/-- A function that writes entities of a type instead of generated updates. -/
structure Function where
  type : String
  kind : FunctionKind
  name : String
  parameters : List Parameter
  deriving DecidableEq

/-- All that a mapping says about an extent, which goes by its qualified name. -/
structure ExtentMapping where
  extent : String
  queryView : Option String
  typeViews : List TypeView
  typeMappings : List TypeMapping
  functions : List Function

end Content

/-- All that the mapping of a container says. -/
structure Content where
  conceptual : String
  store : String
  entitySets : List Content.EntitySet
  associationSets : List Content.AssociationSet
  types : List Content.TypeContent
  associations : List Content.Association
  tables : List Content.Table
  extents : List Content.ExtentMapping

namespace Schema

/-! ## Names -/

/-- The name of a type. -/
def modelName (s : Schema) (id : ModelId) : Except Fault String := do
  return (← s.conceptual.model id).name

/-- The name of a field, with that of the type that declares it. -/
def fieldName (s : Schema) (id : FieldId) : Except Fault Content.FieldName := do
  return ⟨← s.modelName id.model, (← s.conceptual.field id).name⟩

/-- The name of a column, with that of its table. -/
def columnName (s : Schema) (id : ColumnId) : Except Fault Content.ColumnName := do
  return ⟨(← s.store.table id.table).name, (← s.store.column id).name⟩

/-- The name of an association. -/
def associationName (s : Schema) (id : AssociationId) : Except Fault String := do
  return (← s.conceptual.association id).name

/-- The role of an end, with the name of its association. -/
def endName (s : Schema) (id : EndId) : Except Fault Content.EndName := do
  return ⟨← s.associationName id.association, (← s.conceptual.associationEnd id).role⟩

/-! ## Types and relationships -/

/-- The type of a field by name. Only the near end of a navigation is kept, the far end follows. -/
def fieldTypeContent (s : Schema) : FieldType → Except Fault Content.FieldType
  | .scalar type => .ok (.scalar type)
  | .embedded target => return .embedded (← s.modelName target)
  | .navigation association near _ => return .navigation (← s.associationName association) near

/-- A field by name. Whether it is a key field is left to the type. -/
def fieldContent (s : Schema) (f : Field) : Except Fault Content.Field := do
  return ⟨f.name, f.nullable, f.isToken, ← s.fieldTypeContent f.type⟩

/-- The kind of a type, by the names of its base and of its key fields. -/
def kindContent (s : Schema) : ModelKind → Except Fault Content.TypeKind
  | .entity e => do
    return .entity (← e.base.mapM s.modelName) e.isAbstract (← e.key.mapM s.fieldName)
  | .embedded => .ok .embedded

/-- A type by name. -/
def typeContent (s : Schema) (id : ModelId) : Except Fault Content.TypeContent := do
  let m ← s.conceptual.model id
  return ⟨m.name, ← s.kindContent m.kind, ← m.fields.mapM s.fieldContent⟩

/-- An end of an association, by the name of its type. -/
def endContent (s : Schema) (e : AssociationEnd) : Except Fault Content.AssociationEnd := do
  return ⟨e.role, ← s.modelName e.model, e.multiplicity⟩

/-- A referential constraint, by the names of the fields it pairs. -/
def constraintContent (s : Schema) (fk : ForeignKey) : Except Fault Content.ForeignKey := do
  return ⟨fk.principal, ← fk.fields.mapM fun pair => do
    return (← s.fieldName pair.source, ← s.fieldName pair.target)⟩

/-- An association by name. -/
def associationContent (s : Schema) (id : AssociationId) : Except Fault Content.Association := do
  let a ← s.conceptual.association id
  return ⟨a.name, a.isForeignKey, a.isAbstract, ← a.ends.resolve s.endContent,
    ← a.constraints.mapM s.constraintContent⟩

/-! ## Mappings -/

/-- A field and its column, by name. -/
def bindingContent (s : Schema) (b : ColumnBinding) :
    Except Fault (Content.FieldName × Content.ColumnName) := do
  return (← s.fieldName b.field, ← s.columnName b.column)

mutual

/-- How a property is stored, by name. -/
def propertyContent (s : Schema) : PropertyMapping → Except Fault Content.Property
  | .scalar b => return .scalar (← s.fieldName b.field) (← s.columnName b.column)
  | .embedded field properties => do
    return .embedded (← s.fieldName field) (← s.propertyContents properties)
  | .ends id bindings => return .ends (← s.endName id) (← bindings.mapM s.bindingContent)

/-- How each property of a list is stored. -/
def propertyContents (s : Schema) : List PropertyMapping → Except Fault (List Content.Property)
  | [] => .ok []
  | p :: rest => do return (← s.propertyContent p) :: (← s.propertyContents rest)

end

/-- What a condition is about, by name. -/
def targetContent (s : Schema) : ConditionTarget → Except Fault Content.Target
  | .field id => return .field (← s.fieldName id)
  | .column id => return .column (← s.columnName id)

/-- A condition, by the name of what it is about. -/
def conditionContent (s : Schema) (c : Condition) : Except Fault Content.Condition := do
  return ⟨← s.targetContent c.target, c.predicate⟩

/-- A fragment, by the name of its table. -/
def fragmentContent (s : Schema) (f : Fragment) : Except Fault Content.Fragment := do
  return ⟨(← s.store.table f.table).name, ← s.propertyContents f.properties,
    ← f.conditions.mapM s.conditionContent⟩

/-- How entities of some types are stored, by the names of the types. -/
def typeMappingContent (s : Schema) (m : TypeMapping) : Except Fault Content.TypeMapping := do
  return ⟨← m.types.mapM s.modelName, ← m.isOfTypes.mapM s.modelName,
    ← m.fragments.mapM s.fragmentContent⟩

/-- What a parameter is taken from, by name. -/
def memberContent (s : Schema) : ParameterMember → Except Fault Content.Member
  | .path fields => return .path (← fields.mapM s.fieldName)
  | .farEnd id field => return .farEnd (← s.endName id) (← s.fieldName field)

/-- A parameter of a function, by the name of what it is taken from. -/
def parameterContent (s : Schema) (p : ParameterBinding) : Except Fault Content.Parameter := do
  return ⟨p.parameter, p.version, ← s.memberContent p.member⟩

/-- A function, by the name of the type that it writes. -/
def functionContent (s : Schema) (f : FunctionMapping) : Except Fault Content.Function := do
  return ⟨← s.modelName f.type, f.kind, f.function, ← f.parameters.mapM s.parameterContent⟩

/-- The view of a type; the blanks of its text are collapsed. -/
def typeViewContent (s : Schema) (v : TypeView) : Except Fault Content.TypeView := do
  return ⟨← s.modelName v.type, v.includeSubtypes, Blank.collapse v.text⟩

/-- What a mapping says about an extent; the blanks of view texts are collapsed. -/
def extentContent (s : Schema) (m : ExtentMapping) : Except Fault Content.ExtentMapping := do
  return ⟨← s.extentName m.extent, m.queryView.map Blank.collapse,
    ← m.typeViews.mapM s.typeViewContent, ← m.typeMappings.mapM s.typeMappingContent,
    ← m.functions.mapM s.functionContent⟩

/-! ## Containers -/

/-- A set of entities, by the name of their type. -/
def entitySetContent (s : Schema) (set : EntitySet) : Except Fault Content.EntitySet := do
  return ⟨set.name, ← s.modelName set.model⟩

/-- A set of relationships, by the names of its association and of the sets at its ends. -/
def associationSetContent (s : Schema) (set : AssociationSet) :
    Except Fault Content.AssociationSet := do
  return ⟨set.name, ← s.associationName set.association, ← set.ends.resolve fun id => do
    return (← s.conceptual.entitySet id).name⟩

/-- What a pair of containers says, with the closure of its conceptual side. -/
def pairContent (s : Schema) (m : ContainerMapping) : Except Fault Content := do
  let conceptual ← s.conceptual.container m.conceptual
  let store ← s.store.container m.store
  let entitySets ← conceptual.entitySets.mapM s.entitySetContent
  let associationSets ← conceptual.associationSets.mapM s.associationSetContent
  let closure ← s.conceptual.closure conceptual
  let types ← (closure.filterMap Element.model?).mapM s.typeContent
  let associations ← (closure.filterMap Element.association?).mapM s.associationContent
  let tables ← s.store.tablesIn m.store
  let extents ← m.extents.mapM s.extentContent
  return ⟨conceptual.name, store.name, entitySets, associationSets, types, associations,
    tables.map fun (_, t) => ⟨t.name, t.columns⟩, extents⟩

/-- What the mapping of a container says; nothing if the container is not mapped. -/
def content (s : Schema) (id : ContainerId) : Except Fault (Option Content) :=
  (s.mapping.container? id).mapM s.pairContent

end Schema

end QueryViews
