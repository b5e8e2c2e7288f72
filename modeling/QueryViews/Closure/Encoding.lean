import QueryViews.Closure.Content

/-!
# The bytes of a mapping

The canonical encoding of content. Texts and collections are preceded by their length, variants
by a tag, and a collection whose order carries no meaning is written with the encodings of its
elements sorted, so that it is written alike in whatever order it was declared.
-/

namespace QueryViews

/-- What is written. -/
abbrev Bytes := List UInt8

namespace Encoding

/-! ## Primitives -/

/-- Four bytes, the highest first; a larger number loses its upper part. -/
def word (n : Nat) : Bytes :=
  [UInt8.ofNat (n >>> 24), UInt8.ofNat (n >>> 16), UInt8.ofNat (n >>> 8), UInt8.ofNat n]

/-- Eight bytes in two's complement, the highest first. -/
def int64 (i : Int64) : Bytes :=
  let n := i.toUInt64.toNat
  word (n >>> 32) ++ word n

/-- A byte that tells yes from no. -/
def flag (b : Bool) : Bytes := [if b then 1 else 0]

/-- Bytes after their length. -/
def sized (bytes : Bytes) : Bytes := word bytes.length ++ bytes

/-- The bytes of a text in UTF-8, after their number. -/
def string (s : String) : Bytes := sized s.toUTF8.toList

/-- A collection in the order it has. -/
def sequence {α : Type} (encode : α → Bytes) (items : List α) : Bytes :=
  word items.length ++ items.flatMap encode

/-- Encodings in the order of their bytes, each after its length. -/
def sorted (parts : List Bytes) : Bytes :=
  sequence sized (parts.mergeSort fun a b => decide (a ≤ b))

/-- A collection whose order carries no meaning. -/
def unordered {α : Type} (encode : α → Bytes) (items : List α) : Bytes :=
  sorted (items.map encode)

end Encoding

open Encoding

namespace Content

/-! ## Names and constants -/

/-- A field is written as the name of the type that declares it and its own. -/
def FieldName.encode (f : FieldName) : Bytes := string f.owner ++ string f.name

/-- A column is written as the name of its table and its own. -/
def ColumnName.encode (c : ColumnName) : Bytes := string c.table ++ string c.name

/-- An end is written as the name of its association and its role. -/
def EndName.encode (e : EndName) : Bytes := string e.association ++ string e.role

/-- A constant behind a tag for its kind; a null needs nothing but the tag. -/
def encodeConstant : Constant → Bytes
  | .bool b => 0x70 :: flag b
  | .int i => 0x71 :: int64 i
  | .text s => 0x72 :: string s
  | .null => [0x73]

/-! ## Types and relationships -/

/-- The bytes of a set of entities. -/
def EntitySet.encode (s : EntitySet) : Bytes := string s.name ++ string s.type

/-- The bytes of a set of relationships; the first end is written first. -/
def AssociationSet.encode (s : AssociationSet) : Bytes :=
  string s.name ++ string s.association ++ string s.ends.first ++ string s.ends.second

/-- The type of a field behind a tag for its kind. -/
def FieldType.encode : FieldType → Bytes
  | .scalar type => 0x20 :: string type.name
  | .embedded type => 0x21 :: string type
  | .navigation association near => 0x22 :: (string association ++ word near)

/-- The bytes of a field of a type. -/
def Field.encode (f : Field) : Bytes :=
  string f.name ++ flag f.nullable ++ flag f.isToken ++ f.type.encode

/-- The name of a base type, behind a tag that tells whether there is one. -/
def encodeBase : Option String → Bytes
  | some base => 0x01 :: string base
  | none => [0x00]

/-- The kind of a type. Key fields are written in their order. -/
def TypeKind.encode : TypeKind → Bytes
  | .entity base isAbstract key =>
    0x10 :: (encodeBase base ++ flag isAbstract ++ sequence FieldName.encode key)
  | .embedded => [0x11]

/-- The bytes of a type; the order of its fields does not show in them. -/
def TypeContent.encode (t : TypeContent) : Bytes :=
  string t.name ++ t.kind.encode ++ unordered Field.encode t.fields

/-- The bytes of an end of an association. -/
def AssociationEnd.encode (e : AssociationEnd) : Bytes :=
  string e.role ++ string e.type ++ string e.multiplicity.name

/-- The bytes of a constraint; the order of its pairs does not show in them. -/
def ForeignKey.encode (fk : ForeignKey) : Bytes :=
  word fk.principal ++ unordered (fun (source, target) => source.encode ++ target.encode) fk.fields

/-- The bytes of an association; the order of its constraints does not show in them. -/
def Association.encode (a : Association) : Bytes :=
  string a.name ++ flag a.isForeignKey ++ flag a.isAbstract ++
    a.ends.first.encode ++ a.ends.second.encode ++ unordered ForeignKey.encode a.constraints

/-! ## Tables -/

/-- The bytes of a column. -/
def encodeColumn (c : Column) : Bytes :=
  string c.name ++ string c.type.name ++ flag c.nullable ++ flag c.isKey

/-- The bytes of a table; the order of its columns does not show in them. -/
def Table.encode (t : Table) : Bytes := string t.name ++ unordered encodeColumn t.columns

/-! ## Mappings -/

mutual

/-- How a property is stored, behind a tag for its kind. -/
def Property.encode : Property → Bytes
  | .scalar field column => 0x40 :: (field.encode ++ column.encode)
  | .embedded field properties =>
    0x41 :: (field.encode ++ sorted (Property.encodeAll properties))
  | .ends name bindings =>
    0x42 :: (name.encode ++
      unordered (fun (field, column) => field.encode ++ column.encode) bindings)

/-- The encoding of each property of a list. -/
def Property.encodeAll : List Property → List Bytes
  | [] => []
  | p :: rest => p.encode :: Property.encodeAll rest

end

/-- Properties inside others are written one by one, like any other part. -/
theorem Property.encodeAll_eq_map (ps : List Property) :
    Property.encodeAll ps = ps.map Property.encode := by
  induction ps with
  | nil => rfl
  | cons p ps ih => rw [Property.encodeAll, List.map_cons, ih]

/-- What a condition is about, behind a tag that tells fields from columns. -/
def Target.encode : Target → Bytes
  | .field name => 0x50 :: name.encode
  | .column name => 0x51 :: name.encode

/-- What a condition asks for, behind a tag for its kind. -/
def encodePredicate : ConditionPredicate → Bytes
  | .isNull => [0x52]
  | .isNotNull => [0x53]
  | .equals value => 0x54 :: encodeConstant value

/-- The bytes of a condition. -/
def Condition.encode (c : Condition) : Bytes := c.target.encode ++ encodePredicate c.predicate

/-- The bytes of a fragment; neither the order of its properties nor that of its conditions shows in
them. -/
def Fragment.encode (f : Fragment) : Bytes :=
  string f.table ++ sorted (Property.encodeAll f.properties) ++
    unordered Condition.encode f.conditions

/-- The bytes of a mapping of types; no order shows in them. -/
def TypeMapping.encode (m : TypeMapping) : Bytes :=
  unordered string m.types ++ unordered string m.isOfTypes ++ unordered Fragment.encode m.fragments

/-- What a parameter is taken from, behind a tag for its kind. The fields of a path are written in
their order. -/
def Member.encode : Member → Bytes
  | .path fields => 0x60 :: sequence FieldName.encode fields
  | .farEnd name field => 0x61 :: (name.encode ++ field.encode)

/-- The bytes of a parameter of a function. -/
def Parameter.encode (p : Parameter) : Bytes :=
  string p.name ++ flag (p.version = .firstRead) ++ p.member.encode

/-- The bytes of a function; the order of its parameters does not show in them. -/
def Function.encode (f : Function) : Bytes :=
  string f.type ++ string f.kind.name ++ string f.name ++ unordered Parameter.encode f.parameters

/-- The bytes of the view of a type. -/
def TypeView.encode (v : TypeView) : Bytes :=
  string v.type ++ flag v.includeSubtypes ++ string v.text

/-- The view of an extent, behind a tag that tells whether there is one. -/
def encodeQueryView : Option String → Bytes
  | some view => 0x30 :: string view
  | none => [0x31]

/-- The bytes of what a mapping says about an extent; no order shows in them. -/
def ExtentMapping.encode (m : ExtentMapping) : Bytes :=
  string m.extent ++ encodeQueryView m.queryView ++ unordered TypeView.encode m.typeViews ++
    unordered TypeMapping.encode m.typeMappings ++ unordered Function.encode m.functions

end Content

/-- The bytes of all that a mapping says. -/
def Content.encode (c : Content) : Bytes :=
  0x01 :: (string c.conceptual ++ string c.store) ++
  0x02 :: unordered EntitySet.encode c.entitySets ++
  0x03 :: unordered AssociationSet.encode c.associationSets ++
  0x04 :: unordered TypeContent.encode c.types ++
  0x05 :: unordered Association.encode c.associations ++
  0x06 :: unordered Table.encode c.tables ++
  0x07 :: unordered ExtentMapping.encode c.extents

end QueryViews
