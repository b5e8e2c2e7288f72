import QueryViews.Expr.Text

/-!
# Views

A view belongs to a key, an extent or an entity set restricted to a type; it has a body, a query
or an opaque text, and a text, which for a query is the query's. The text is made once, when the
view is made.
-/

namespace QueryViews

/-- An entity set restricted to one type, with or without its subtypes. -/
structure TypeKey where
  entitySet : EntitySetId
  type : ModelId
  includeSubtypes : Bool
  deriving DecidableEq

/-- What there can be a view of: an extent, or the entities of a type in a set. -/
inductive ViewKey
  | extent (e : Extent)
  | ofType (k : TypeKey)
  deriving DecidableEq

/-- A view is a query, or the text of one that was not made here. -/
inductive ViewBody
  | query (q : Query)
  | text (t : String)

/-- Where a view came from. -/
inductive Origin
  /-- written by the user in the mapping -/
  | userDefined
  /-- made from a foreign key -/
  | foreignKey
  /-- adopted from an artifact -/
  | preGenerated
  /-- made by the generator -/
  | runtime
  deriving DecidableEq

/-- The origin as it is reported. -/
def Origin.name : Origin → String
  | .userDefined => "UserDefined"
  | .foreignKey => "ForeignKey"
  | .preGenerated => "PreGenerated"
  | .runtime => "Runtime"

/-- A view, made once for its key and never changed. -/
structure View where
  key : ViewKey
  body : ViewBody
  text : String
  origin : Origin

namespace View

/-- A view whose body is a text. -/
def ofText (key : ViewKey) (text : String) (origin : Origin) : View :=
  ⟨key, .text text, text, origin⟩

/-- A view with the text of its body; a query with a dangling id has none. -/
def make (s : Schema) (key : ViewKey) (body : ViewBody) (origin : Origin) : Except Fault View :=
  match body with
  | .text t => .ok (ofText key t origin)
  | .query q => return ⟨key, body, ← q.text s, origin⟩

end View

end QueryViews
