import QueryViews.Conceptual.Basic

/-!
# The hierarchy of types

The types above a type, the root of its hierarchy, and what a type inherits: the key that the
root declares, and the fields of every type above it. The walk upwards is bounded by the number
of types, which a chain without repetition cannot exceed; a longer one is a fault.
-/

namespace QueryViews.Conceptual

/-- The type and its base types, nearest first, as far as `bound` types. -/
def basesWithin (c : Conceptual) : Nat → ModelId → Except Fault (List ModelId)
  | 0, id => .error (.endlessBases id)
  | bound + 1, id => do
    let m ← c.model id
    match m.base? with
    | none => return [id]
    | some base => return id :: (← c.basesWithin bound base)

/-- The type itself and each of its base types, nearest first. -/
def ancestors (c : Conceptual) (id : ModelId) : Except Fault (List ModelId) :=
  c.basesWithin (c.models.length + 1) id

/-- The last type above a type. -/
def root (c : Conceptual) (id : ModelId) : Except Fault ModelId := do
  return (← c.ancestors id).getLastD id

/-- Whether a type is `ancestor` or derives from it. -/
def isAssignable (c : Conceptual) (id ancestor : ModelId) : Except Fault Bool := do
  return (← c.ancestors id).contains ancestor

/-- Whether a type derives from `ancestor` and is another type. -/
def isStrictSubtype (c : Conceptual) (id ancestor : ModelId) : Except Fault Bool :=
  if id = ancestor then .ok false else c.isAssignable id ancestor

/-- The entity types that are `id` or derive from it, in order of declaration. -/
def subtypes (c : Conceptual) (id : ModelId) : Except Fault (List ModelId) :=
  c.modelIds |> select fun candidate => do
    let m ← c.model candidate
    if m.isEntity then c.isAssignable candidate id else return false

/-- The key of a type, as the root of its hierarchy declares it. -/
def keyFields (c : Conceptual) (id : ModelId) : Except Fault (List FieldId) := do
  let m ← c.model (← c.root id)
  return (m.entity?.map EntityType.key).getD []

/-- Every field of a type, those of its base types first. -/
def allFields (c : Conceptual) (id : ModelId) : Except Fault (List FieldId) := do
  let above ← c.ancestors id
  let groups ← above.reverse.mapM fun owner => do
    return (← c.model owner).fieldIds owner
  return groups.flatten

end QueryViews.Conceptual
