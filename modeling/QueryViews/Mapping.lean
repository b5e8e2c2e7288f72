import QueryViews.Constant
import QueryViews.Fault

/-!
# The mapping

How conceptual containers are stored: each is paired with one store container, and each of its
extents may carry a mapping of its own, with fragments that bind types to tables, with views that
the user wrote, and with the stored procedures used for changes.

Containers are kept in the order in which they were first mapped, and mapping one again replaces
its entry in place.
-/

namespace QueryViews

/-! ## Fragments -/

/-- A field and the column that stores it. -/
structure ColumnBinding where
  field : FieldId
  column : ColumnId
  deriving DecidableEq

/-- How a part of a type is stored. -/
inductive PropertyMapping
  | scalar (binding : ColumnBinding)
  /-- an embedded field, with the mapping of the fields inside it -/
  | embedded (field : FieldId) (properties : List PropertyMapping)
  /-- the key fields of the type at an end -/
  | ends (id : EndId) (bindings : List ColumnBinding)

/-- What a condition is about. -/
inductive ConditionTarget
  | field (id : FieldId)
  | column (id : ColumnId)
  deriving DecidableEq

instance : ToString ConditionTarget where
  toString
    | .field id => s!"Field({id})"
    | .column id => s!"Column({id})"

/-- What a condition asks of its target. -/
inductive ConditionPredicate
  | isNull
  | isNotNull
  | equals (value : Constant)
  deriving DecidableEq

/-- Which rows a fragment covers. -/
structure Condition where
  target : ConditionTarget
  predicate : ConditionPredicate
  deriving DecidableEq

/-- Binds a part of a type to one table. -/
structure Fragment where
  table : TableId
  properties : List PropertyMapping
  conditions : List Condition

/-- Fragments and the types they apply to. -/
structure TypeMapping where
  /-- the types meant exactly -/
  types : List ModelId
  /-- the types meant together with all of their subtypes -/
  isOfTypes : List ModelId
  fragments : List Fragment

/-- Whether a type mapping covers a type, given the types above it. -/
def TypeMapping.appliesTo (m : TypeMapping) (type : ModelId) (ancestors : List ModelId) : Bool :=
  m.types.contains type || m.isOfTypes.any fun t => t = type || ancestors.contains t

/-! ## Stored procedures -/

/-- What a function does with an entity. -/
inductive FunctionKind
  | insert
  | update
  | delete
  deriving DecidableEq

/-- The kind as it is written. -/
def FunctionKind.name : FunctionKind → String
  | .insert => "insert"
  | .update => "update"
  | .delete => "delete"

/-- Where a parameter takes its value from. -/
inductive ParameterMember
  /-- the way from the entity through embedded fields to a primitive field -/
  | path (fields : List FieldId)
  /-- a key field of the entity at the far end of a relationship -/
  | farEnd (id : EndId) (field : FieldId)
  deriving DecidableEq

/-- Which value of a member a parameter takes: the current one, or the one first read. -/
inductive ParameterVersion
  | current
  | firstRead
  deriving DecidableEq

/-- A parameter of a function, with what is passed in it. -/
structure ParameterBinding where
  parameter : String
  member : ParameterMember
  version : ParameterVersion
  deriving DecidableEq

/-- Binds one kind of change of a type to a stored procedure. -/
structure FunctionMapping where
  type : ModelId
  kind : FunctionKind
  function : String
  parameters : List ParameterBinding
  deriving DecidableEq

/-! ## Extents and containers -/

/-- A view that the user wrote for one type within an extent. -/
structure TypeView where
  type : ModelId
  includeSubtypes : Bool
  text : String
  deriving DecidableEq

/-- How one conceptual extent is stored. -/
structure ExtentMapping where
  extent : Extent
  /-- the user's own view of the whole extent -/
  queryView : Option String
  typeViews : List TypeView
  typeMappings : List TypeMapping
  functions : List FunctionMapping

namespace ExtentMapping

/-- A mapping that says nothing yet. -/
def empty (e : Extent) : ExtentMapping := ⟨e, none, [], [], []⟩

/-- The fragments of all type mappings of an extent. -/
def fragments (m : ExtentMapping) : List Fragment :=
  m.typeMappings.flatMap TypeMapping.fragments

/-- The first view that the user wrote for a type. -/
def typeView? (m : ExtentMapping) (type : ModelId) (includeSubtypes : Bool) : Option TypeView :=
  m.typeViews.find? fun v => v.type = type && v.includeSubtypes = includeSubtypes

end ExtentMapping

/-- A conceptual container, its store container, and the mappings of its extents. -/
structure ContainerMapping where
  conceptual : ContainerId
  store : StoreId
  extents : List ExtentMapping

namespace ContainerMapping

/-- The mapping of an extent, the first one if there are several. -/
def extent? (m : ContainerMapping) (e : Extent) : Option ExtentMapping :=
  m.extents.find? (·.extent = e)

/-- Whether the user wrote any view, of an extent or of a type. -/
def hasUserViews (m : ContainerMapping) : Bool :=
  m.extents.any fun e => e.queryView.isSome || !e.typeViews.isEmpty

end ContainerMapping

/-- All pairs of containers, in the order in which their conceptual sides were first mapped. -/
structure Mapping where
  containers : List ContainerMapping

namespace Mapping

/-- The mapping of a conceptual container, the first one if there are several. -/
def container? (m : Mapping) (id : ContainerId) : Option ContainerMapping :=
  m.containers.find? (·.conceptual = id)

/-- The mapping of a conceptual container, which has to be mapped. -/
def container (m : Mapping) (id : ContainerId) : Except Fault ContainerMapping :=
  found (m.container? id) (.notMapped id)

/-- The mapping to a store container, the first one if there are several. -/
def containerForStore? (m : Mapping) (id : StoreId) : Option ContainerMapping :=
  m.containers.find? (·.store = id)

/-- The mapping of an extent; tables, and extents of unmapped containers, have none. -/
def extent? (m : Mapping) (e : Extent) : Option ExtentMapping :=
  e.container?.bind fun id => (m.container? id).bind (·.extent? e)

end Mapping

end QueryViews
