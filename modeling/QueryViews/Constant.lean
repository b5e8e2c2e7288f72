import QueryViews.Text.Quoted

/-!
# Constants and scalar types

The constants of query views and of mapping conditions, with the literals that stand for them in
view text, and the types of primitive fields and columns, with their stable names.
-/

namespace QueryViews

/-- A constant of a view or of a mapping condition. -/
inductive Constant
  | bool (value : Bool)
  | int (value : Int64)
  | text (value : String)
  | null
  deriving DecidableEq

namespace Constant

/-- Whether the constant is the null. -/
def isNull : Constant → Bool
  | .null => true
  | _ => false

/-- The literal that stands for a constant in view text. -/
def literal : Constant → String
  | .bool true => "true"
  | .bool false => "false"
  | .int value => toString value.toInt
  | .text value => String.ofList (Quoted.quote value.toList)
  | .null => "NULL"

end Constant

/-- The type of a primitive field or column. -/
inductive ScalarType
  | boolean
  | int16
  | int32
  | int64
  | decimal
  | text
  | guid
  | binary
  | dateTime
  deriving DecidableEq

/-- The stable name of a type, in answers and in closure hashes. -/
def ScalarType.name : ScalarType → String
  | .boolean => "Boolean"
  | .int16 => "Int16"
  | .int32 => "Int32"
  | .int64 => "Int64"
  | .decimal => "Decimal"
  | .text => "String"
  | .guid => "Guid"
  | .binary => "Binary"
  | .dateTime => "DateTime"

end QueryViews
