import QueryViews.Schema.Basic
import QueryViews.Error

/-!
# Members that matter

Which members of a type have to be read or tracked when its instances in an entity set change: to
detect conflicts, and to bind the parameters of updates. There are six reasons for a member to
matter, and the answer is all members that matter for any of them, each once, in the order of the
reasons.
-/

namespace QueryViews

/-- What the members are needed for. -/
inductive Scenario
  /-- values are tracked as first read for all that might be compared, the key included -/
  | tracking
  /-- all members are written -/
  | fullUpdate
  /-- only members that changed are written -/
  | partialUpdate
  deriving DecidableEq

/-- A member of an entity type. -/
inductive Member
  | field (id : FieldId)
  /-- the end of a relationship, reached from the entity -/
  | farEnd (id : EndId)
  deriving DecidableEq

instance : ToString Member where
  toString
    | .field id => s!"Field({id})"
    | .farEnd id => s!"End({id})"

/-- The member that a parameter is bound to: the first field of a path, or a far end. -/
def ParameterMember.member? : ParameterMember → Option Member
  | .path fields => fields.head?.map .field
  | .farEnd id _ => some (.farEnd id)

namespace Schema

/-! ## The six reasons -/

/-- The key, where values are tracked as first read. -/
def keyMembers (s : Schema) (type : ModelId) : Scenario → Except Fault (List Member)
  | .tracking => do return (← s.conceptual.keyFields type).map .field
  | _ => .ok []

/-- The far ends of the association sets that have a mapping of their own, where instances of
the type can stand at the near end. -/
def mappedEnds (s : Schema) (set : EntitySetId) (type : ModelId) : Except Fault (List Member) := do
  let touching ← s.conceptual.touching set
  let mapped := touching.filter fun (id, _, _) =>
    (s.mapping.extent? (.associationSet id)).isSome
  let reachable ← mapped |> select fun (_, bound, index) => do
    let near ← s.conceptual.associationEnd ⟨bound.association, index⟩
    s.conceptual.isAssignable type near.model
  return reachable.map fun (_, bound, index) => .farEnd ⟨bound.association, 1 - index⟩

/-- The tokens among a field and the fields embedded in it, what is inside before what is around
it; a field that embeds a token counts as one. Looks at most `depth` fields deep. -/
def tokens (s : Schema) : Nat → FieldId → Except Fault (List FieldId)
  | 0, id => .error (.endlessEmbedding id)
  | depth + 1, id => do
    let f ← s.conceptual.field id
    let nested ← match f.type with
      | .embedded target => (Model.fieldIds · target) <$> s.conceptual.model target
      | _ => .ok []
    let inner := (← nested.mapM (s.tokens depth)).flatten
    return if f.isToken || !inner.isEmpty then inner ++ [id] else inner

/-- The fields of the type, inherited ones included, that are compared for optimistic
concurrency. The walk into embedded types is bounded by the number of types. -/
def tokenMembers (s : Schema) (type : ModelId) : Except Fault (List Member) := do
  let fields ← s.conceptual.allFields type
  let groups ← fields.mapM (s.tokens (s.conceptual.models.length + 1))
  return groups.flatten.map .field

/-- The fields that conditions test, in the fragments that apply to the type. -/
def conditionMembers (s : Schema) (set : EntitySetId) (type : ModelId) :
    Except Fault (List Member) := do
  match s.mapping.extent? (.entitySet set) with
  | none => return []
  | some mapping =>
    let ancestors ← s.conceptual.ancestors type
    let fragments := (mapping.typeMappings.filter (·.appliesTo type ancestors)).flatMap
      TypeMapping.fragments
    return fragments.flatMap fun fragment => fragment.conditions.filterMap fun condition =>
      match condition.target with
      | .field id => some (.field id)
      | .column _ => none

/-- The source fields of the foreign keys whose dependent end instances of the type can be. -/
def foreignKeyMembers (s : Schema) (set : EntitySetId) (type : ModelId) :
    Except Fault (List Member) := do
  let touching ← s.conceptual.touching set
  let groups ← touching.mapM fun (_, bound, index) => do
    let a ← s.conceptual.association bound.association
    match a.foreignKey? with
    | none => return []
    | some fk =>
      if index ≠ fk.dependent then return []
      else
        let near ← s.conceptual.associationEnd ⟨bound.association, index⟩
        if ← s.conceptual.isAssignable type near.model then
          return fk.fields.map fun pair => .field pair.source
        else
          return []
  return groups.flatten

/-- The members bound to parameters of the type's stored procedures. Where all members are
written anyway, only those bound to values as first read matter. -/
def parameterMembers (s : Schema) (set : EntitySetId) (type : ModelId) (scenario : Scenario) :
    List Member :=
  match s.mapping.extent? (.entitySet set) with
  | none => []
  | some mapping =>
    let functions := mapping.functions.filter (·.type = type)
    let bindings := (functions.flatMap FunctionMapping.parameters).filter fun b =>
      scenario = .partialUpdate || b.version = .firstRead
    bindings.filterMap (·.member.member?)

/-! ## All of them -/

/-- The members of a type that matter in an entity set. The type must be one whose instances the
set can hold. -/
def interestingMembers (s : Schema) (set : EntitySetId) (type : ModelId) (scenario : Scenario) :
    Except (Failure Error) (List Member) := do
  let element ← s.elementType set
  unless ← s.conceptual.isAssignable type element do
    let typeName := (← s.conceptual.model type).name
    let setName := (← s.conceptual.entitySet set).name
    refuse (.plain s!"type `{typeName}` cannot be stored in entity set `{setName}`")
  let key ← s.keyMembers type scenario
  let ends ← s.mappedEnds set type
  let tokens ← s.tokenMembers type
  let conditions ← s.conditionMembers set type
  let foreignKeys ← s.foreignKeyMembers set type
  let parameters := s.parameterMembers set type scenario
  return (key ++ ends ++ tokens ++ conditions ++ foreignKeys ++ parameters).eraseDups

end Schema

end QueryViews
