import QueryViews.Expr.Basic
import QueryViews.Schema.Basic

/-!
# View text

The text of expressions and queries. Ids are written as the names they have in a schema, the
scanned row is called `T`, and a filter that is true is left out. An id without a name is a fault.
-/

namespace QueryViews

mutual

/-- An expression as it is printed. Operands have no brackets around them. -/
def Expr.text (s : Schema) : Expr → Except Fault String
  | .conj es => do return " AND ".intercalate (← Expr.texts s es)
  | .field id => do return "T." ++ (← s.conceptual.field id).name
  | .isNull negated e => do
    return (← e.text s) ++ if negated then " IS NOT NULL" else " IS NULL"
  | .isOf only id => do
    let only := if only then "ONLY " else ""
    return "T IS OF (" ++ only ++ (← s.conceptual.model id).name ++ ")"
  | .record es => do return "ROW(" ++ ", ".intercalate (← Expr.texts s es) ++ ")"
  | .ref set key => do
    let name ← s.extentName (.entitySet set)
    return "CreateRef(" ++ name ++ ", ROW(" ++ ", ".intercalate (← Expr.texts s key) ++ "))"
  | .relationship id es => do
    let name := (← s.conceptual.association id).name
    return name ++ "(" ++ ", ".intercalate (← Expr.texts s es) ++ ")"
  | .constant value => .ok value.literal

/-- Each expression of a list as it is printed. -/
def Expr.texts (s : Schema) : List Expr → Except Fault (List String)
  | [] => .ok []
  | e :: es => do return (← e.text s) :: (← Expr.texts s es)

end

/-- The text of a query view. -/
def Query.text (s : Schema) (q : Query) : Except Fault String := do
  let returning ← q.returning.text s
  let source ← s.extentName q.source
  let scan := "SELECT VALUE " ++ returning ++ " FROM " ++ source ++ " AS T"
  if q.filter.isTrue then return scan
  else return scan ++ " WHERE " ++ (← q.filter.text s)

end QueryViews
