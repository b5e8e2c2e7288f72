import QueryViews.Expr.Basic

/-!
# Conjunctions

Joining two expressions keeps conjunctions flat: true disappears, and the operands of a
conjunction on either side are taken over one by one. `operands` is the view under which joining
is concatenation.
-/

namespace QueryViews

namespace Expr

/-- What an expression contributes to a conjunction that it is joined into. -/
def operands : Expr → List Expr
  | .conj es => es
  | e => [e]

/-- The conjunction of two expressions. -/
def and (l r : Expr) : Expr :=
  if l.isTrue then r
  else if r.isTrue then l
  else .conj (l.operands ++ r.operands)

/-- The conjunction of a list of expressions, from the left. -/
def andAll (es : List Expr) : Expr :=
  match es.filter (!·.isTrue) with
  | [] => truth
  | e :: rest => rest.foldl and e

end Expr

namespace Query

/-- The query that keeps every row of an extent. -/
def scan (source : Extent) (returning : Expr) : Query := ⟨source, .truth, returning⟩

/-- Keeps only those rows that also pass `filter`. -/
def addFilter (q : Query) (filter : Expr) : Query := { q with filter := q.filter.and filter }

end Query

end QueryViews
