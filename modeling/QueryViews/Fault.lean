import QueryViews.Ident

/-!
# Faults

A question about a schema may name something that the schema does not have. Such a question has
no answer at all: it is not refused with an error that a caller could report, it is a `Fault`.
Look-ups run in `Except Fault`, and `found` turns a partial look-up into one that says what was
missing. An operation that meets a fault publishes nothing.
-/

namespace QueryViews

/-- Why a question has no answer. -/
inductive Fault
  /-- no such thing is declared -/
  | noModel (id : ModelId)
  | noField (id : FieldId)
  | noAssociation (id : AssociationId)
  | noEnd (id : EndId)
  | noContainer (id : ContainerId)
  | noEntitySet (id : EntitySetId)
  | noAssociationSet (id : AssociationSetId)
  | noStore (id : StoreId)
  | noTable (id : TableId)
  | noColumn (id : ColumnId)
  /-- an entity type is needed, and the model is embedded -/
  | notEntity (id : ModelId)
  /-- the field is looked for in a model that is not its own -/
  | foreignField (model : ModelId) (field : FieldId)
  /-- the column is looked for in a table that is not its own -/
  | foreignColumn (table : TableId) (column : ColumnId)
  /-- the container takes part in no mapping -/
  | notMapped (id : ContainerId)
  /-- a table carries no mapping of its own -/
  | tableHasNoMapping (id : TableId)
  /-- the chain of base types above the model has no end -/
  | endlessBases (id : ModelId)
  /-- the embedded types below the field have no end -/
  | endlessEmbedding (id : FieldId)
  /-- an error that already has a cause cannot explain another one -/
  | alreadyCaused
  /-- a collaborator gave no answer -/
  | collaborator
  deriving DecidableEq

/-- The value of a partial look-up, or the fault that names what is missing. -/
def found {α : Type} : Option α → Fault → Except Fault α
  | some a, _ => .ok a
  | none, f => .error f

/-- The elements that pass a test, where testing may meet a fault. -/
def select {α : Type} (test : α → Except Fault Bool) : List α → Except Fault (List α)
  | [] => .ok []
  | a :: as => do
    let passes ← test a
    let rest ← select test as
    return if passes then a :: rest else rest

@[simp] theorem found_some {α : Type} (a : α) (f : Fault) : found (some a) f = .ok a := rfl

@[simp] theorem found_none {α : Type} (f : Fault) : found (none : Option α) f = .error f := rfl

/-- A lookup faults unless there is something. -/
theorem found_eq_ok_iff {α : Type} {o : Option α} {f : Fault} {a : α} :
    found o f = .ok a ↔ o = some a := by
  cases o <;> simp [found]

end QueryViews
