import QueryViews.Schema.Basic

/-!
# Declarations

A schema is put together by declarations, one at a time. Each declaration appends: what it
declares takes the next free place among its siblings, and its id is that place, so an id that was
issued once keeps its meaning. Besides appending, a declaration may mark a type or a relationship
as abstract, add a constraint to a relationship, pair two containers, or edit the mapping of an
extent.

A declaration that builds on an id which was never issued is a fault, with three exceptions that
only verification can judge: base types, the ids inside mappings, and the ids of sets.
-/

namespace QueryViews

/-! ## What can be declared -/

/-- What a field is to its type. -/
inductive FieldRole
  | plain
  | nullable
  /-- checked for optimistic concurrency -/
  | token
  | key
  deriving DecidableEq

/-- What a column is to its table. -/
inductive ColumnRole
  | plain
  | nullable
  | key
  deriving DecidableEq

/-- A change to the mapping of one extent. -/
inductive MappingEdit
  /-- only makes sure that there is a mapping -/
  | keep
  | extent (e : Extent)
  | queryView (text : Option String)
  | typeView (view : TypeView)
  | typeMapping (mapping : TypeMapping)
  | function (mapping : FunctionMapping)

/-- One call on a schema under construction. What it refers to was issued by an earlier one. -/
inductive Declaration
  | entity (name : String)
  | derivedEntity (name : String) (base : ModelId)
  | embedded (name : String)
  | markAbstract (model : ModelId)
  | field (role : FieldRole) (model : ModelId) (name : String) (type : ScalarType)
  | embeddedField (model : ModelId) (name : String) (target : ModelId)
  /-- a field of a model that plays the near end of a relationship -/
  | navigation (model : ModelId) (name : String) (association : AssociationId) (near : Nat)
  | association (name : String) (first second : ModelId × Multiplicity)
  | foreignKey (association : AssociationId) (principal : Nat) (fields : List ForeignKeyField)
  | markAssociationAbstract (association : AssociationId)
  | container (name : String)
  | entitySet (container : ContainerId) (name : String) (model : ModelId)
  | associationSet (container : ContainerId) (name : String) (association : AssociationId)
      (ends : Ends EntitySetId)
  | storeContainer (name : String)
  | table (container : StoreId) (name : String)
  | column (role : ColumnRole) (table : TableId) (name : String) (type : ScalarType)
  | mapContainers (conceptual : ContainerId) (store : StoreId)
  | mapExtent (extent : Extent) (edit : MappingEdit)

/-- The id that a declaration issues, if it issues one. -/
inductive Issued
  | nothing
  | model (id : ModelId)
  | field (id : FieldId)
  | association (id : AssociationId)
  | container (id : ContainerId)
  | entitySet (id : EntitySetId)
  | associationSet (id : AssociationSetId)
  | store (id : StoreId)
  | table (id : TableId)
  | column (id : ColumnId)
  deriving DecidableEq

instance : ToString Issued where
  toString
    | .nothing => ""
    | .model id => toString id
    | .field id => toString id
    | .association id => toString id
    | .container id => toString id
    | .entitySet id => toString id
    | .associationSet id => toString id
    | .store id => toString id
    | .table id => toString id
    | .column id => toString id

namespace Schema

/-! ## Types and relationships -/

/-- Adds a type without fields. -/
def addModel (s : Schema) (name : String) (kind : ModelKind) : Schema × Issued :=
  ({ s with conceptual.models := s.conceptual.models ++ [⟨name, [], kind⟩] },
    .model ⟨s.conceptual.models.length⟩)

/-- Replaces the model at a place where there is one. -/
def setModel (s : Schema) (id : ModelId) (m : Model) : Schema :=
  { s with conceptual.models := s.conceptual.models.set id.index m }

/-- Adds a field behind those that the type has. -/
def addField (s : Schema) (id : ModelId) (f : Field) : Except Fault (Schema × FieldId) := do
  let m ← s.conceptual.model id
  return (s.setModel id { m with fields := m.fields ++ [f] }, ⟨id, m.fields.length⟩)

/-- Changes what a model has as an entity type. -/
def editEntity (s : Schema) (id : ModelId) (edit : EntityType → EntityType) :
    Except Fault Schema := do
  let m ← s.conceptual.model id
  let e ← found m.entity? (.notEntity id)
  return s.setModel id { m with kind := .entity (edit e) }

/-- Adds a scalar field. A key field also goes to the end of the key, for which the type has to be
an entity type. -/
def addScalarField (s : Schema) (role : FieldRole) (id : ModelId) (name : String)
    (type : ScalarType) : Except Fault (Schema × Issued) := do
  let (s, field) ← s.addField id ⟨name, .scalar type, role = .nullable, role = .token⟩
  let s ← if role = .key then
      s.editEntity id fun e => { e with key := e.key ++ [field] }
    else pure s
  return (s, .field field)

/-- The two ends of a new relationship, named after their types. When both types have the same
name, the second end has a 1 after it. -/
def namedEnds (s : Schema) (first second : ModelId × Multiplicity) :
    Except Fault (Ends AssociationEnd) := do
  let firstName := (← s.conceptual.model first.1).name
  let secondName := (← s.conceptual.model second.1).name
  return ⟨⟨firstName, first.1, first.2⟩,
    ⟨if firstName = secondName then secondName ++ "1" else secondName, second.1, second.2⟩⟩

/-- Changes an association. -/
def editAssociation (s : Schema) (id : AssociationId) (edit : Association → Association) :
    Except Fault Schema := do
  let a ← s.conceptual.association id
  return { s with conceptual.associations := s.conceptual.associations.set id.index (edit a) }

/-! ## Containers and tables -/

/-- Takes another container in place of one. -/
def setContainer (s : Schema) (id : ContainerId) (c : Container) : Schema :=
  { s with conceptual.containers := s.conceptual.containers.set id.index c }

/-- Adds a table without columns to a store container. -/
def addTable (s : Schema) (id : StoreId) (name : String) : Except Fault (Schema × Issued) := do
  let owner ← s.store.container id
  let table : TableId := ⟨s.store.tables.length⟩
  return ({ s with
    store.tables := s.store.tables ++ [⟨id, name, [], []⟩]
    store.containers :=
      s.store.containers.set id.index { owner with tables := owner.tables ++ [table] } },
    .table table)

/-- Adds a column behind those that the table has; a key column also goes to the end of the primary
key. -/
def addColumn (s : Schema) (role : ColumnRole) (id : TableId) (name : String)
    (type : ScalarType) : Except Fault (Schema × Issued) := do
  let t ← s.store.table id
  let column : ColumnId := ⟨id, t.columns.length⟩
  let isKey := role = .key
  let grown := { t with
    columns := t.columns ++ [⟨name, type, role = .nullable, isKey⟩]
    key := if isKey then t.key ++ [column] else t.key }
  return ({ s with store.tables := s.store.tables.set id.index grown }, .column column)

end Schema

/-! ## Mappings -/

/-- Pairs a container with a store container. A pair that the container had before is replaced
where it stands, with all that was mapped in it. -/
def Mapping.pair (m : Mapping) (conceptual : ContainerId) (store : StoreId) : Mapping :=
  let entry : ContainerMapping := ⟨conceptual, store, []⟩
  match m.container? conceptual with
  | some _ =>
    ⟨m.containers.map fun other => if other.conceptual = conceptual then entry else other⟩
  | none => ⟨m.containers ++ [entry]⟩

/-- What a call on the mapping of an extent makes of it. -/
def MappingEdit.apply (m : ExtentMapping) : MappingEdit → ExtentMapping
  | .keep => m
  | .extent e => { m with extent := e }
  | .queryView text => { m with queryView := text }
  | .typeView view => { m with typeViews := m.typeViews ++ [view] }
  | .typeMapping mapping => { m with typeMappings := m.typeMappings ++ [mapping] }
  | .function mapping => { m with functions := m.functions ++ [mapping] }

/-- Edits the first mapping of an extent, or a new one at the end. -/
def editExtent (e : Extent) (edit : MappingEdit) : List ExtentMapping → List ExtentMapping
  | [] => [edit.apply (.empty e)]
  | m :: rest =>
    if m.extent = e then edit.apply m :: rest else m :: editExtent e edit rest

/-- Edits the mapping of a conceptual extent, whose container has to be mapped already. -/
def Mapping.edit (m : Mapping) (e : Extent) (edit : MappingEdit) : Except Fault Mapping :=
  match e with
  | .table id => .error (.tableHasNoMapping id)
  | .entitySet ⟨id, _⟩ | .associationSet ⟨id, _⟩ => do
    let _ ← m.container id
    return ⟨m.containers.map fun c =>
      if c.conceptual = id then { c with extents := editExtent e edit c.extents } else c⟩

/-! ## Applying declarations -/

/-- The schema after a declaration, and the id issued. -/
def Schema.declare (s : Schema) : Declaration → Except Fault (Schema × Issued)
  | .entity name => .ok (s.addModel name (.entity ⟨none, false, []⟩))
  | .derivedEntity name base => .ok (s.addModel name (.entity ⟨some base, false, []⟩))
  | .embedded name => .ok (s.addModel name .embedded)
  | .markAbstract model => do
    return (← s.editEntity model fun e => { e with isAbstract := true }, .nothing)
  | .field role model name type => s.addScalarField role model name type
  | .embeddedField model name target => do
    let (s, field) ← s.addField model ⟨name, .embedded target, false, false⟩
    return (s, .field field)
  | .navigation model name association near => do
    let (s, field) ← s.addField model ⟨name, .navigation association near (1 - near), false, false⟩
    return (s, .field field)
  | .association name first second => do
    let ends ← s.namedEnds first second
    let added : Association := ⟨name, ends, [], false, false⟩
    return ({ s with conceptual.associations := s.conceptual.associations ++ [added] },
      .association ⟨s.conceptual.associations.length⟩)
  | .foreignKey association principal fields => do
    let constraint : ForeignKey := ⟨principal, if principal = 0 then 1 else 0, fields⟩
    let s ← s.editAssociation association fun a =>
      { a with constraints := a.constraints ++ [constraint], isForeignKey := true }
    return (s, .nothing)
  | .markAssociationAbstract association => do
    return (← s.editAssociation association fun a => { a with isAbstract := true }, .nothing)
  | .container name =>
    .ok ({ s with conceptual.containers := s.conceptual.containers ++ [⟨name, [], []⟩] },
      .container ⟨s.conceptual.containers.length⟩)
  | .entitySet id name model => do
    let c ← s.conceptual.container id
    return (s.setContainer id { c with entitySets := c.entitySets ++ [⟨name, model⟩] },
      .entitySet ⟨id, c.entitySets.length⟩)
  | .associationSet id name association ends => do
    let c ← s.conceptual.container id
    let added : AssociationSet := ⟨name, association, ends⟩
    return (s.setContainer id { c with associationSets := c.associationSets ++ [added] },
      .associationSet ⟨id, c.associationSets.length⟩)
  | .storeContainer name =>
    .ok ({ s with store.containers := s.store.containers ++ [⟨name, []⟩] },
      .store ⟨s.store.containers.length⟩)
  | .table id name => s.addTable id name
  | .column role id name type => s.addColumn role id name type
  | .mapContainers conceptual store =>
    .ok ({ s with mapping := s.mapping.pair conceptual store }, .nothing)
  | .mapExtent e edit => do
    return ({ s with mapping := ← s.mapping.edit e edit }, .nothing)

/-- The schema after some declarations, and the ids issued in order. A declaration that faults is
named by its place, counted from `start`. -/
def Schema.declareFrom (start : Nat) (s : Schema) :
    List Declaration → Except (Nat × Fault) (Schema × List Issued)
  | [] => .ok (s, [])
  | d :: rest =>
    match s.declare d with
    | .error f => .error (start, f)
    | .ok (s, id) => (fun (s, ids) => (s, id :: ids)) <$> s.declareFrom (start + 1) rest

end QueryViews
