import QueryViews.Constant
import QueryViews.Fault

/-!
# The conceptual schema

Entity types with single inheritance, embedded types, relationship types with two ends, and the
containers that hold sets of entities and of relationships. Elements are kept in the order of
their declaration and addressed by their place, so nothing here stores its own id.

Every look-up says what is missing; none of them assumes that an id it is given was ever issued.
-/

namespace QueryViews

/-! ## Pairs of ends -/

/-- One thing for each end of a relationship, in the order of the ends. -/
structure Ends (α : Type) where
  first : α
  second : α
  deriving DecidableEq

namespace Ends

variable {α β : Type}

/-- Both ends, the first one first. -/
def toList (e : Ends α) : List α := [e.first, e.second]

/-- The end with an index, if that is 0 or 1. -/
def get? (e : Ends α) (index : Nat) : Option α := e.toList[index]?

/-- Resolves both ends, the first one first. -/
def resolve (f : α → Except Fault β) (e : Ends α) : Except Fault (Ends β) := do
  let first ← f e.first
  let second ← f e.second
  return ⟨first, second⟩

end Ends

/-! ## Types -/

/-- What a field holds. -/
inductive FieldType
  | scalar (type : ScalarType)
  /-- an instance of an embedded type -/
  | embedded (target : ModelId)
  /-- the way along a relationship, from the near end to the far one -/
  | navigation (association : AssociationId) (near far : Nat)
  deriving DecidableEq

/-- A field that a model declares. Whether it is a key field is said by the model. -/
structure Field where
  name : String
  type : FieldType
  nullable : Bool
  /-- compared for optimistic concurrency -/
  isToken : Bool
  deriving DecidableEq

/-- What an entity type has and an embedded type has not. -/
structure EntityType where
  base : Option ModelId
  isAbstract : Bool
  /-- the key fields, in order; only the root of a hierarchy declares them -/
  key : List FieldId
  deriving DecidableEq

/-- An entity type, whose instances have an identity, or an embedded type, whose instances are parts
of others. -/
inductive ModelKind
  | entity (type : EntityType)
  | embedded
  deriving DecidableEq

/-- A type with the fields that it declares itself. -/
structure Model where
  name : String
  fields : List Field
  kind : ModelKind
  deriving DecidableEq

namespace Model

/-- What makes the model an entity type, if it is one. -/
def entity? (m : Model) : Option EntityType :=
  match m.kind with
  | .entity e => some e
  | .embedded => none

/-- Whether the model is an entity type. -/
def isEntity (m : Model) : Bool := m.entity?.isSome

/-- The base type, if the model derives from one. -/
def base? (m : Model) : Option ModelId := m.entity?.bind EntityType.base

/-- Whether the model is an entity type without instances of its own. -/
def isAbstract (m : Model) : Bool := m.entity?.any EntityType.isAbstract

/-- The ids of the fields of `m`, which is the model `id`. -/
def fieldIds (m : Model) (id : ModelId) : List FieldId :=
  (List.range m.fields.length).map (FieldId.mk id)

end Model

/-! ## Relationship types -/

/-- How many entities may be at an end. -/
inductive Multiplicity
  | one
  | zeroOrOne
  | many
  deriving DecidableEq

/-- A multiplicity as it is written. -/
def Multiplicity.name : Multiplicity → String
  | .one => "1"
  | .zeroOrOne => "0..1"
  | .many => "*"

/-- Whether there may be none but not several. -/
def Multiplicity.isOptional : Multiplicity → Bool
  | .zeroOrOne => true
  | _ => false

/-- An end of an association: the role that entities play there, their type, and how many there may
be. -/
structure AssociationEnd where
  role : String
  model : ModelId
  multiplicity : Multiplicity
  deriving DecidableEq

/-- A field of the dependent type that holds the value of a key field of the principal type. -/
structure ForeignKeyField where
  source : FieldId
  target : FieldId
  deriving DecidableEq

/-- A referential constraint. The two ends are given by their place among the ends. -/
structure ForeignKey where
  principal : Nat
  dependent : Nat
  fields : List ForeignKeyField
  deriving DecidableEq

/-- A relationship type. -/
structure Association where
  name : String
  ends : Ends AssociationEnd
  constraints : List ForeignKey
  /-- the fields of the dependent encode the relationship, without a table of its own -/
  isForeignKey : Bool
  isAbstract : Bool
  deriving DecidableEq

/-- The constraint of a relationship that is encoded by it: there must be exactly one. -/
def Association.foreignKey? (a : Association) : Option ForeignKey :=
  match a.constraints with
  | [fk] => if a.isForeignKey then some fk else none
  | _ => none

/-! ## Containers -/

/-- A named set of entities in a container. -/
structure EntitySet where
  name : String
  /-- the element type; instances of its subtypes are held too -/
  model : ModelId
  deriving DecidableEq

/-- A named set of relationships in a container. -/
structure AssociationSet where
  name : String
  association : AssociationId
  /-- the entity set bound to each end -/
  ends : Ends EntitySetId
  deriving DecidableEq

/-- A container of entity sets and association sets. -/
structure Container where
  name : String
  entitySets : List EntitySet
  associationSets : List AssociationSet
  deriving DecidableEq

/-- The conceptual side of a schema. -/
structure Conceptual where
  models : List Model
  associations : List Association
  containers : List Container
  deriving DecidableEq

/-! ## Look-ups -/

namespace Conceptual

/-- The ids of all models, in the order of declaration. -/
def modelIds (c : Conceptual) : List ModelId :=
  (List.range c.models.length).map ModelId.mk

/-- The model of an id. Like all that looks for an id, it faults if there is none. -/
def model (c : Conceptual) (id : ModelId) : Except Fault Model :=
  found c.models[id.index]? (.noModel id)

/-- The field of an id, in the model that declares it. -/
def field (c : Conceptual) (id : FieldId) : Except Fault Field := do
  let m ← c.model id.model
  found m.fields[id.index]? (.noField id)

/-- The first field of a name that a model declares. -/
def fieldByName? (c : Conceptual) (id : ModelId) (name : String) :
    Except Fault (Option (FieldId × Field)) := do
  let m ← c.model id
  return ((m.fieldIds id).zip m.fields).find? fun (_, f) => f.name = name

/-- A field, looked for in a model that has to be its own. -/
def fieldOf (c : Conceptual) (m : ModelId) (id : FieldId) : Except Fault Field := do
  let _ ← c.model m
  if id.model = m then c.field id else .error (.foreignField m id)

/-- What a model has as an entity type. -/
def entityType (c : Conceptual) (id : ModelId) : Except Fault EntityType := do
  let m ← c.model id
  found m.entity? (.notEntity id)

/-- The association of an id. -/
def association (c : Conceptual) (id : AssociationId) : Except Fault Association :=
  found c.associations[id.index]? (.noAssociation id)

/-- The end of an id, in its association. -/
def associationEnd (c : Conceptual) (id : EndId) : Except Fault AssociationEnd := do
  let a ← c.association id.association
  found (a.ends.get? id.index) (.noEnd id)

/-- The container of an id. -/
def container (c : Conceptual) (id : ContainerId) : Except Fault Container :=
  found c.containers[id.index]? (.noContainer id)

/-- The entity set of an id, in its container. -/
def entitySet (c : Conceptual) (id : EntitySetId) : Except Fault EntitySet := do
  let owner ← c.container id.container
  found owner.entitySets[id.index]? (.noEntitySet id)

/-- The association set of an id, in its container. -/
def associationSet (c : Conceptual) (id : AssociationSetId) : Except Fault AssociationSet := do
  let owner ← c.container id.container
  found owner.associationSets[id.index]? (.noAssociationSet id)

/-- The entity sets of a container, each with its id. -/
def entitySetsIn (c : Conceptual) (id : ContainerId) :
    Except Fault (List (EntitySetId × EntitySet)) := do
  let owner ← c.container id
  return owner.entitySets.zipIdx.map fun (set, index) => (⟨id, index⟩, set)

/-- The association sets of a container, each with its id. -/
def associationSetsIn (c : Conceptual) (id : ContainerId) :
    Except Fault (List (AssociationSetId × AssociationSet)) := do
  let owner ← c.container id
  return owner.associationSets.zipIdx.map fun (set, index) => (⟨id, index⟩, set)

/-- The first entity set of a name in a container. -/
def entitySetByName? (c : Conceptual) (id : ContainerId) (name : String) :
    Except Fault (Option (EntitySetId × EntitySet)) := do
  return (← c.entitySetsIn id).find? fun (_, set) => set.name = name

/-- The first association set of a name in a container. -/
def associationSetByName? (c : Conceptual) (id : ContainerId) (name : String) :
    Except Fault (Option (AssociationSetId × AssociationSet)) := do
  return (← c.associationSetsIn id).find? fun (_, set) => set.name = name

/-- Where an entity set is bound: the association sets of its own container that bind it, and
the place of the end they bind it to. A set that binds it twice is there twice. -/
def touching (c : Conceptual) (id : EntitySetId) :
    Except Fault (List (AssociationSetId × AssociationSet × Nat)) := do
  let sets ← c.associationSetsIn id.container
  return sets.flatMap fun (setId, set) =>
    set.ends.toList.zipIdx.filterMap fun (bound, index) =>
      if bound = id then some (setId, set, index) else none

end Conceptual

end QueryViews
