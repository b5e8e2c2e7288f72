import QueryViews.View.Basic
import QueryViews.Expr.Conjunction
import QueryViews.Error

/-!
# Views of foreign keys

An association set whose relationship is encoded by a foreign key has a view that needs no
generator: it scans the dependent entity set and makes one relationship instance of each row. The
dependent end is referred to by the key of the row, the principal end by the values of the foreign
key, so the principal's own storage is never read.

Rows of other types than the dependent's are left out, and so are rows whose foreign key is not
set, where the principal is optional. Two sets of one relationship that read the same dependent
entity set would describe the same instances, and neither has a view.
-/

namespace QueryViews.Schema

/-- An association set with its relationship. -/
def relationshipOf (s : Schema) (id : AssociationSetId) :
    Except Fault (AssociationSet × Association) := do
  let set ← s.conceptual.associationSet id
  return (set, ← s.conceptual.association set.association)

/-- Whether the views of an association set are made from its foreign key. -/
def hasForeignKeyView (s : Schema) (id : AssociationSetId) : Except Fault Bool := do
  return (← s.relationshipOf id).2.foreignKey?.isSome

/-- The source fields of a foreign key, in the order of the key that they refer to. -/
def sourceFields (key : List FieldId) (fk : ForeignKey) : List FieldId :=
  key.filterMap fun target => (fk.fields.find? (·.target = target)).map ForeignKeyField.source

/-- The query of a foreign key view. -/
def foreignKeyQuery (s : Schema) (set : AssociationSet) (a : Association) (fk : ForeignKey) :
    Except Fault Query := do
  let endId := fun index => EndId.mk set.association index
  let dependent ← found (a.ends.get? fk.dependent) (.noEnd (endId fk.dependent))
  let principal ← found (a.ends.get? fk.principal) (.noEnd (endId fk.principal))
  let dependentSet ← found (set.ends.get? fk.dependent) (.noEnd (endId fk.dependent))
  let principalSet ← found (set.ends.get? fk.principal) (.noEnd (endId fk.principal))
  let sources := sourceFields (← s.conceptual.keyFields principal.model) fk
  let ownKey ← s.conceptual.keyFields dependent.model
  let dependentRef := Expr.ref dependentSet (ownKey.map .field)
  let principalRef := Expr.ref principalSet (sources.map .field)
  let ends := (List.range 2).map fun index =>
    if index = fk.dependent then dependentRef else principalRef
  let all := Query.scan (.entitySet dependentSet) (.relationship set.association ends)
  let element ← s.elementType dependentSet
  let restricted ← s.conceptual.isStrictSubtype dependent.model element
  let typed := if restricted then all.addFilter (.isOf false dependent.model) else all
  if principal.multiplicity.isOptional then
    return sources.foldl (fun q f => q.addFilter (.isNull true (.field f))) typed
  else
    return typed

/-- Another set of the same container that describes the instances that `set` describes. -/
def rival? (s : Schema) (id : AssociationSetId) (set : AssociationSet) (fk : ForeignKey) :
    Except Fault (Option AssociationSet) := do
  let sets ← s.conceptual.associationSetsIn id.container
  return (sets.find? fun (otherId, other) =>
    otherId ≠ id && other.association = set.association &&
      other.ends.get? fk.dependent = set.ends.get? fk.dependent).map Prod.snd

/-- The error for two sets that describe the same instances. -/
def rivalry (set other : AssociationSet) (a : Association) (dependentSet : EntitySet) : Error :=
  .mapping (s!"association sets `{set.name}` and `{other.name}` both map " ++
    s!"foreign key `{a.name}` on entity set `{dependentSet.name}`")

/-- The view of an association set, made from its foreign key; none if it has none. -/
def foreignKeyView (s : Schema) (id : AssociationSetId) :
    Except (Failure Error) (Option View) := do
  let (set, a) ← s.relationshipOf id
  match a.foreignKey? with
  | none => return none
  | some fk =>
    let extent := Extent.associationSet id
    if a.isAbstract then
      refuse (.viewNotGenerated (← s.extentName extent))
    match ← s.rival? id set fk with
    | some other =>
      let bound ← found (set.ends.get? fk.dependent) (.noEnd ⟨set.association, fk.dependent⟩)
      let dependentSet ← s.conceptual.entitySet bound
      refuse (rivalry set other a dependentSet)
    | none =>
      let query ← s.foreignKeyQuery set a fk
      return some (← View.make s (.extent extent) (.query query) .foreignKey)

end QueryViews.Schema
