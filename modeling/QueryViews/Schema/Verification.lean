import QueryViews.Schema.Declaration
import QueryViews.Error

/-!
# Verification

What has to hold of a schema before anything is asked of it: names are unique, every chain of
base types is finite, roots declare keys, fields and relationships refer to types of the right
kind, foreign keys line up with the key of their principal, association sets bind entity sets that
can hold their ends, no store container is mapped twice, and mappings stay within their tables.

The checks run in a fixed order and the first one that fails names the fault in the schema. A
check that has to follow a dangling id meets a fault instead.
-/

namespace QueryViews

/-- The outcome of a check: passed, an error in the schema, or a fault on the way. -/
abbrev Check := Except (Failure Error) Unit

/-- Refuses the schema with a message. -/
def invalid {α : Type} (message : String) : Except (Failure Error) α :=
  refuse (.invalidSchema message)

/-- The first element that occurred before, given those seen already. -/
def firstRepeated {α : Type} [DecidableEq α] : List α → List α → Option α
  | _, [] => none
  | seen, a :: rest => if a ∈ seen then some a else firstRepeated (a :: seen) rest

namespace Schema

/-! ## Types -/

/-- No two types have one name. -/
def checkModelNames (s : Schema) : Check :=
  match firstRepeated [] (s.conceptual.models.map Model.name) with
  | some name => invalid s!"duplicate type name `{name}`"
  | none => .ok ()

/-- Follows the base types of the model called `name`, at most `bound` of them. -/
def checkBases (s : Schema) (name : String) : Nat → Option ModelId → Check
  | _, none => .ok ()
  | bound, some base =>
    match s.conceptual.models[base.index]? with
    | none => invalid s!"type `{name}` derives from an unknown type"
    | some m =>
      match bound with
      | 0 => invalid s!"type `{name}` has a cyclic inheritance chain"
      | bound + 1 => s.checkBases name bound m.base?

/-- Every chain of base types ends, at a type that exists. -/
def checkInheritance (s : Schema) : Check :=
  s.conceptual.models.forM fun m =>
    s.checkBases m.name s.conceptual.models.length m.base?

/-- Roots declare a key, and no other type does. -/
def checkKeys (s : Schema) : Check :=
  s.conceptual.models.forM fun m =>
    match m.entity? with
    | none => .ok ()
    | some e =>
      match e.base, e.key with
      | none, [] => invalid s!"entity type `{m.name}` has no key"
      | some _, _ :: _ => invalid s!"derived entity type `{m.name}` declares its own key"
      | _, _ => .ok ()

/-- A model that has to exist for the schema to be valid. -/
def knownModel (s : Schema) (id : ModelId) : Except (Failure Error) Model :=
  match s.conceptual.models[id.index]? with
  | some m => .ok m
  | none => invalid s!"unknown type {id}"

/-- A field of the model `m`, which is the model `id`, refers to a type or to a relationship that
fits it. -/
def checkField (s : Schema) (id : ModelId) (m : Model) (f : Field) : Check :=
  match f.type with
  | .scalar _ => .ok ()
  | .embedded target => do
    let t ← s.knownModel target
    if t.isEntity then
      invalid s!"field `{m.name}.{f.name}` embeds entity type `{t.name}`"
  | .navigation association near _ =>
    match s.conceptual.associations[association.index]? with
    | none => invalid s!"field `{m.name}.{f.name}` navigates an unknown association"
    | some a =>
      match a.ends.get? near with
      | none =>
        invalid (s!"field `{m.name}.{f.name}` navigates from end {near} of `{a.name}`" ++
          ", which has two ends")
      | some e => do
        unless ← s.conceptual.isAssignable id e.model do
          invalid s!"field `{m.name}.{f.name}` does not belong to end `{e.role}` of `{a.name}`"

/-- All fields of all types are checked. -/
def checkFields (s : Schema) : Check :=
  s.conceptual.models.zipIdx.forM fun (m, index) =>
    m.fields.forM (s.checkField ⟨index⟩ m)

/-! ## Relationships -/

/-- The pairs of a constraint, from the left: no key field is referenced twice, each target is
part of the key, and each source is a field of the dependent type. -/
def checkPairs (s : Schema) (name : String) (dependent : ModelId) (key : List FieldId) :
    List FieldId → List ForeignKeyField → Check
  | _, [] => .ok ()
  | seen, pair :: rest => do
    if pair.target ∈ seen then
      invalid s!"foreign key of `{name}` references the same principal key field twice"
    else if pair.target ∉ key then
      invalid s!"foreign key of `{name}` targets a field outside the principal key"
    else
      unless ← s.conceptual.isAssignable dependent pair.source.model do
        invalid s!"foreign key field of `{name}` is not declared by the dependent type"
      s.checkPairs name dependent key (pair.target :: seen) rest

/-- A referential constraint names two different ends and pairs every key field of the principal
one. -/
def checkConstraint (s : Schema) (a : Association) (fk : ForeignKey) : Check :=
  match a.ends.get? fk.principal, a.ends.get? fk.dependent with
  | some principal, some dependent => do
    if fk.principal = fk.dependent then
      misplaced
    else
      let key ← s.conceptual.keyFields principal.model
      let count := fk.fields.length
      if count ≠ key.length then
        invalid (s!"foreign key of `{a.name}` has {count} fields but the principal key has " ++
          toString key.length)
      else
        s.checkPairs a.name dependent.model key [] fk.fields
  | _, _ => misplaced
where
  misplaced : Check :=
    invalid (s!"foreign key of `{a.name}` must have one principal and one dependent end; " ++
      s!"got principal {fk.principal} and dependent {fk.dependent}")

/-- Associations are between entity types, and their constraints hold what they promise. -/
def checkAssociation (s : Schema) (a : Association) : Check := do
  a.ends.toList.forM fun e => do
    unless (← s.knownModel e.model).isEntity do
      invalid s!"association `{a.name}` has an end that is not an entity type"
  a.constraints.forM (s.checkConstraint a)

/-- All associations are checked. -/
def checkAssociations (s : Schema) : Check :=
  s.conceptual.associations.forM s.checkAssociation

/-! ## Containers -/

/-- The names of the extents of a container: entity sets, then association sets. -/
def extentNames (c : Container) : List String :=
  c.entitySets.map EntitySet.name ++ c.associationSets.map AssociationSet.name

/-- No two containers share a name, and no two extents of one container do. -/
def checkContainerNames : List String → List Container → Check
  | _, [] => .ok ()
  | seen, c :: rest =>
    if c.name ∈ seen then invalid s!"duplicate container name `{c.name}`"
    else
      match firstRepeated [] (extentNames c) with
      | some name => invalid s!"duplicate extent name `{c.name}.{name}`"
      | none => checkContainerNames (c.name :: seen) rest

/-- An association set of the container `c` binds entity sets of that container, and each can
hold the type at its end. -/
def checkAssociationSet (s : Schema) (id : ContainerId) (c : Container) (set : AssociationSet) :
    Check := do
  let a ← s.conceptual.association set.association
  (set.ends.toList.zip a.ends.toList).forM fun (bound, e) => do
    if bound.container ≠ id then
      invalid s!"association set `{c.name}.{set.name}` binds an entity set of another container"
    let element ← s.elementType bound
    unless ← s.conceptual.isAssignable e.model element do
      let type ← s.conceptual.model e.model
      invalid (s!"entity set bound to end `{e.role}` of association set `{c.name}.{set.name}`" ++
        s!" cannot hold `{type.name}`")

/-- All association sets of all containers are checked. -/
def checkAssociationSets (s : Schema) : Check :=
  s.conceptual.containers.zipIdx.forM fun (c, index) =>
    c.associationSets.forM (s.checkAssociationSet ⟨index⟩ c)

/-! ## Mappings -/

/-- Every store side of a pair exists, and none belongs to two pairs. -/
def checkStores (s : Schema) : List StoreId → List ContainerMapping → Check
  | _, [] => .ok ()
  | seen, m :: rest =>
    match s.store.containers[m.store.index]? with
    | none => invalid "mapping names an unknown store container"
    | some store =>
      if m.store ∈ seen then invalid s!"store container `{store.name}` is mapped more than once"
      else s.checkStores (m.store :: seen) rest

mutual

/-- The columns of a property are columns of the table. -/
def checkProperty (s : Schema) (name : String) (table : TableId) : PropertyMapping → Check
  | .scalar binding =>
    if binding.column.table = table then .ok ()
    else do
      let f ← s.conceptual.field binding.field
      invalid s!"field `{f.name}` of extent `{name}` is mapped to a column of another table"
  | .embedded _ properties => s.checkProperties name table properties
  | .ends _ bindings =>
    if bindings.all (·.column.table = table) then .ok ()
    else invalid s!"end of extent `{name}` is mapped to a column of another table"

/-- All properties of a fragment are checked, those inside others too. -/
def checkProperties (s : Schema) (name : String) (table : TableId) :
    List PropertyMapping → Check
  | [] => .ok ()
  | p :: rest => do
    s.checkProperty name table p
    s.checkProperties name table rest

end

/-- A condition on a column is about the table of its fragment. One on a field is not looked at. -/
def checkCondition (name : String) (table : TableId) (c : Condition) : Check :=
  match c.target with
  | .field _ => .ok ()
  | .column id =>
    if id.table = table then .ok ()
    else invalid s!"condition on extent `{name}` names a column of another table"

/-- A fragment stays within its table, and the table within the store container. -/
def checkFragment (s : Schema) (store : StoreId) (name : String) (f : Fragment) : Check := do
  let table ← s.store.table f.table
  if table.container ≠ store then
    invalid s!"extent `{name}` is mapped to table `{table.name}` outside its store container"
  s.checkProperties name f.table f.properties
  f.conditions.forM (checkCondition name f.table)

/-- Only entity sets and association sets are mapped, and all their fragments are checked. -/
def checkExtent (s : Schema) (store : StoreId) (m : ExtentMapping) : Check :=
  match m.extent with
  | .table _ => invalid "store tables cannot carry a mapping"
  | e => do
    let name ← s.extentName e
    m.fragments.forM (s.checkFragment store name)

/-- All mappings of all pairs are checked. -/
def checkMappings (s : Schema) : Check :=
  s.mapping.containers.forM fun c => c.extents.forM (s.checkExtent c.store)

/-! ## All checks -/

/-- The checks of a schema, in order. -/
def verify (s : Schema) : Check := do
  s.checkModelNames
  s.checkInheritance
  s.checkKeys
  s.checkFields
  s.checkAssociations
  checkContainerNames [] s.conceptual.containers
  s.checkAssociationSets
  s.checkStores [] s.mapping.containers
  s.checkMappings

end Schema

/-! ## Building -/

/-- Why declarations do not add up to a schema. -/
inductive BuildFailure
  /-- the declaration at the place builds on something that is not there -/
  | declaration (index : Nat) (f : Fault)
  /-- verification met a dangling id -/
  | verification (f : Fault)
  | invalid (e : Error)

/-- Applies all declarations to the empty schema and verifies the result. Also gives the ids
issued, one for each declaration. -/
def Schema.build (declarations : List Declaration) :
    Except BuildFailure (Schema × List Issued) :=
  match Schema.empty.declareFrom 0 declarations with
  | .error (index, f) => .error (.declaration index f)
  | .ok (s, ids) =>
    match s.verify with
    | .ok () => .ok (s, ids)
    | .error (.fault f) => .error (.verification f)
    | .error (.error e) => .error (.invalid e)

end QueryViews
