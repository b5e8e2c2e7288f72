import QueryViews.Constant
import QueryViews.Fault

/-!
# The store schema

Tables with typed columns, and the store containers they belong to. A container lists its tables
in the order of their declaration.
-/

namespace QueryViews

/-- A column of a table. -/
structure Column where
  name : String
  type : ScalarType
  nullable : Bool
  isKey : Bool
  deriving DecidableEq

/-- A table of a store container. -/
structure Table where
  container : StoreId
  name : String
  columns : List Column
  /-- the primary key, in order -/
  key : List ColumnId
  deriving DecidableEq

/-- A container of tables. -/
structure StoreContainer where
  name : String
  tables : List TableId
  deriving DecidableEq

/-- The store side of a schema. -/
structure Store where
  containers : List StoreContainer
  tables : List Table
  deriving DecidableEq

namespace Store

/-- The store container of an id. -/
def container (s : Store) (id : StoreId) : Except Fault StoreContainer :=
  found s.containers[id.index]? (.noStore id)

/-- The table of an id. -/
def table (s : Store) (id : TableId) : Except Fault Table :=
  found s.tables[id.index]? (.noTable id)

/-- The column of an id, in its table. -/
def column (s : Store) (id : ColumnId) : Except Fault Column := do
  let t ← s.table id.table
  found t.columns[id.index]? (.noColumn id)

/-- The columns of a table, each with its id. -/
def columnsIn (s : Store) (id : TableId) : Except Fault (List (ColumnId × Column)) := do
  let t ← s.table id
  return t.columns.zipIdx.map fun (c, index) => (⟨id, index⟩, c)

/-- The first column of a name in a table. -/
def columnByName? (s : Store) (id : TableId) (name : String) :
    Except Fault (Option (ColumnId × Column)) := do
  return (← s.columnsIn id).find? fun (_, c) => c.name = name

/-- A column, looked for in a table that has to be its own. -/
def columnOf (s : Store) (t : TableId) (id : ColumnId) : Except Fault Column := do
  let _ ← s.table t
  if id.table = t then s.column id else .error (.foreignColumn t id)

/-- The tables of a store container. Each of them has to exist. -/
def tablesIn (s : Store) (id : StoreId) : Except Fault (List (TableId × Table)) := do
  let owner ← s.container id
  owner.tables.mapM fun t => do return (t, ← s.table t)

end Store

end QueryViews
