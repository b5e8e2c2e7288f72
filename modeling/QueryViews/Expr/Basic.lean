import QueryViews.Constant
import QueryViews.Ident

/-!
# Expressions and queries

The expressions of query views. A query scans one extent, keeps the rows that pass its filter and
makes one value of each; its expressions speak of the scanned row.
-/

namespace QueryViews

/-- A scalar expression over the row that a query scans. -/
inductive Expr
  /-- the conjunction of the operands -/
  | conj (operands : List Expr)
  /-- a field of the scanned row -/
  | field (id : FieldId)
  /-- a null test, or with `negated` the test for a value -/
  | isNull (negated : Bool) (operand : Expr)
  /-- whether the scanned row is of a type, or with `only` of that type exactly -/
  | isOf (only : Bool) (type : ModelId)
  | record (fields : List Expr)
  /-- a reference to an entity, given by the values of its key -/
  | ref (set : EntitySetId) (key : List Expr)
  /-- a relationship instance, given by its ends -/
  | relationship (association : AssociationId) (ends : List Expr)
  | constant (value : Constant)

namespace Expr

/-- The literal that is always true. -/
def truth : Expr := .constant (.bool true)

/-- Whether the expression is the constant `true`. One that always holds for other reasons is
not. -/
def isTrue : Expr → Bool
  | .constant (.bool true) => true
  | _ => false

instance : Inhabited Expr := ⟨.constant .null⟩

end Expr

/-- Scans `source`, keeps the rows that pass `filter`, and makes of each what `returning` says. -/
structure Query where
  source : Extent
  filter : Expr
  returning : Expr

end QueryViews
