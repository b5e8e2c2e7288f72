import QueryViews.Expr.Basic

/-!
# Occurrences

The expressions that occur in an expression or a query, in the order in which a walk meets them:
what is inside before what is around it, from left to right, and in a query the filter before
what is returned. The key of a reference is no expression of its own; only its parts occur.
-/

namespace QueryViews

/-- The kind of an expression, by name. -/
def Expr.kind : Expr → String
  | .conj _ => "and"
  | .field _ => "field"
  | .isNull false _ => "is_null"
  | .isNull true _ => "is_not_null"
  | .isOf false _ => "is_of"
  | .isOf true _ => "is_of_only"
  | .record _ => "record"
  | .ref _ _ => "ref"
  | .relationship _ _ => "rel"
  | .constant _ => "v"

mutual

/-- Every expression that occurs in an expression, itself last. -/
def Expr.occurrences : Expr → List Expr
  | .conj es => Expr.occurrencesAll es ++ [.conj es]
  | .field f => [.field f]
  | .isNull negated e => e.occurrences ++ [.isNull negated e]
  | .isOf only t => [.isOf only t]
  | .record es => Expr.occurrencesAll es ++ [.record es]
  | .ref set key => Expr.occurrencesAll key ++ [.ref set key]
  | .relationship a es => Expr.occurrencesAll es ++ [.relationship a es]
  | .constant v => [.constant v]

/-- The expressions in a list of expressions, each behind its parts. -/
def Expr.occurrencesAll : List Expr → List Expr
  | [] => []
  | e :: es => e.occurrences ++ Expr.occurrencesAll es

end

/-- Whether an expression that passes the test occurs. -/
def Expr.anyOccurrence (e : Expr) (test : Expr → Bool) : Bool := e.occurrences.any test

/-- The expressions in a query, those of the filter first. -/
def Query.occurrences (q : Query) : List Expr := q.filter.occurrences ++ q.returning.occurrences

/-- Whether an expression in the query passes a test. -/
def Query.anyOccurrence (q : Query) (test : Expr → Bool) : Bool := q.occurrences.any test

end QueryViews
