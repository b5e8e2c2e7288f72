import QueryViews.Proofs.Closure.Legible

/-!
# The same content

Two contents say the same when they differ at most in the order of the collections whose order
carries no meaning. The order of key fields, of the two ends of a relationship and of the fields
of a parameter path carries meaning; the order of everything else does not, at any depth.

A content **fits** when every text, every collection and every nested encoding in it is short
enough for its length to be written.
-/

namespace QueryViews

open Encoding

namespace Content

/-! ## What says the same -/

/-- The same type, with its fields in whatever order. The key is part of the kind and keeps its
order. -/
structure TypeContent.Same (t t' : TypeContent) : Prop where
  name : t.name = t'.name
  kind : t.kind = t'.kind
  fields : t.fields.Perm t'.fields

/-- The same constraint, with its pairs in whatever order. -/
structure ForeignKey.Same (fk fk' : ForeignKey) : Prop where
  principal : fk.principal = fk'.principal
  fields : fk.fields.Perm fk'.fields

/-- The same association, with constraints that say the same in whatever order. -/
structure Association.Same (a a' : Association) : Prop where
  name : a.name = a'.name
  isForeignKey : a.isForeignKey = a'.isForeignKey
  isAbstract : a.isAbstract = a'.isAbstract
  ends : a.ends = a'.ends
  constraints : Rearranged ForeignKey.Same a.constraints a'.constraints

/-- The same table, with its columns in whatever order. -/
structure Table.Same (t t' : Table) : Prop where
  name : t.name = t'.name
  columns : t.columns.Perm t'.columns

/-- The same property, with the properties inside it in whatever order at every depth. -/
inductive Property.Same : Property → Property → Prop
  | scalar (field : FieldName) (column : ColumnName) :
    Same (.scalar field column) (.scalar field column)
  | embedded (field : FieldName) {properties properties' : List Property} :
    Multiset.Rel Same (properties : Multiset Property) (properties' : Multiset Property) →
      Same (.embedded field properties) (.embedded field properties')
  | ends (name : EndName) {bindings bindings' : List (FieldName × ColumnName)} :
    bindings.Perm bindings' → Same (.ends name bindings) (.ends name bindings')

/-- The same fragment: properties that say the same and the same conditions, in whatever order. -/
structure Fragment.Same (f f' : Fragment) : Prop where
  table : f.table = f'.table
  properties : Rearranged Property.Same f.properties f'.properties
  conditions : f.conditions.Perm f'.conditions

/-- The same mapping of types, with fragments that say the same in whatever order. -/
structure TypeMapping.Same (m m' : TypeMapping) : Prop where
  types : m.types.Perm m'.types
  isOfTypes : m.isOfTypes.Perm m'.isOfTypes
  fragments : Rearranged Fragment.Same m.fragments m'.fragments

/-- The same function, with its parameters in whatever order. -/
structure Function.Same (f f' : Function) : Prop where
  type : f.type = f'.type
  kind : f.kind = f'.kind
  name : f.name = f'.name
  parameters : f.parameters.Perm f'.parameters

/-- The same said about an extent, in whatever order. -/
structure ExtentMapping.Same (m m' : ExtentMapping) : Prop where
  extent : m.extent = m'.extent
  queryView : m.queryView = m'.queryView
  typeViews : m.typeViews.Perm m'.typeViews
  typeMappings : Rearranged TypeMapping.Same m.typeMappings m'.typeMappings
  functions : Rearranged Function.Same m.functions m'.functions

/-! ## What fits -/

/-- Both names of a field fit. -/
structure FieldName.Fits (f : FieldName) : Prop where
  owner : TextFits f.owner
  name : TextFits f.name

/-- Both names of a column fit. -/
structure ColumnName.Fits (c : ColumnName) : Prop where
  table : TextFits c.table
  name : TextFits c.name

/-- The name of the association fits, and so does the role. -/
structure EndName.Fits (e : EndName) : Prop where
  association : TextFits e.association
  role : TextFits e.role

/-- Both names fit. -/
structure EntitySet.Fits (s : EntitySet) : Prop where
  name : TextFits s.name
  type : TextFits s.type

/-- All four names fit. -/
structure AssociationSet.Fits (s : AssociationSet) : Prop where
  name : TextFits s.name
  association : TextFits s.association
  first : TextFits s.ends.first
  second : TextFits s.ends.second

/-- The name that the type of a field refers to fits. Those of scalar types always do. -/
def FieldType.Fits : FieldType → Prop
  | .scalar _ => True
  | .embedded type => TextFits type
  | .navigation association _ => TextFits association

/-- The name of a field fits, and so does what its type refers to. -/
structure Field.Fits (f : Field) : Prop where
  name : TextFits f.name
  type : f.type.Fits

/-- The name of the base fits, if there is one, and the key does. -/
def TypeKind.Fits : TypeKind → Prop
  | .entity base _ key => (∀ b ∈ base, TextFits b) ∧ SequenceFits FieldName.Fits key
  | .embedded => True

/-- All that is said of a type fits. -/
structure TypeContent.Fits (t : TypeContent) : Prop where
  name : TextFits t.name
  kind : t.kind.Fits
  fields : CollectionFits Field.Fits Field.encode t.fields

/-- The role fits, and the name of the type does. -/
structure AssociationEnd.Fits (e : AssociationEnd) : Prop where
  role : TextFits e.role
  type : TextFits e.type

/-- A source field with the key field it refers to. -/
def FieldPair.Fits (pair : FieldName × FieldName) : Prop := pair.1.Fits ∧ pair.2.Fits

/-- The pairs of a constraint fit. Nothing is asked of its principal end, whose number is small
where the schema was verified. -/
structure ForeignKey.Fits (fk : ForeignKey) : Prop where
  fields : CollectionFits FieldPair.Fits (fun (source, target) => source.encode ++ target.encode)
    fk.fields

/-- All that is said of an association fits. -/
structure Association.Fits (a : Association) : Prop where
  name : TextFits a.name
  first : a.ends.first.Fits
  second : a.ends.second.Fits
  constraints : CollectionFits ForeignKey.Fits ForeignKey.encode a.constraints

/-- The name of a column fits. The rest of it always does. -/
def ColumnFits (c : Column) : Prop := TextFits c.name

/-- The name of a table fits, and its columns do. -/
structure Table.Fits (t : Table) : Prop where
  name : TextFits t.name
  columns : CollectionFits ColumnFits encodeColumn t.columns

/-- A field with the column that stores it. -/
def Binding.Fits (binding : FieldName × ColumnName) : Prop := binding.1.Fits ∧ binding.2.Fits

mutual

/-- The names in a property fit, and so do the collections in it at every depth. -/
def Property.Fits : Property → Prop
  | .scalar field column => field.Fits ∧ column.Fits
  | .embedded field properties =>
    field.Fits ∧ Short properties.length ∧ Property.AllFit properties
  | .ends name bindings => name.Fits ∧
    CollectionFits Binding.Fits (fun (field, column) => field.encode ++ column.encode) bindings

/-- Each property of a list fits, and so does its encoding. -/
def Property.AllFit : List Property → Prop
  | [] => True
  | p :: rest => (p.Fits ∧ Short p.encode.length) ∧ Property.AllFit rest

end

/-- The name of what a condition is about fits. -/
def Target.Fits : Target → Prop
  | .field name => name.Fits
  | .column name => name.Fits

/-- A constant fits unless it is a long text. -/
def ConstantFits : Constant → Prop
  | .text s => TextFits s
  | _ => True

/-- What a condition compares with fits. -/
def PredicateFits : ConditionPredicate → Prop
  | .equals value => ConstantFits value
  | _ => True

/-- All that is said in a condition fits. -/
structure Condition.Fits (c : Condition) : Prop where
  target : c.target.Fits
  predicate : PredicateFits c.predicate

/-- The name of the table fits, and the properties and conditions do. -/
structure Fragment.Fits (f : Fragment) : Prop where
  table : TextFits f.table
  properties : CollectionFits Property.Fits Property.encode f.properties
  conditions : CollectionFits Condition.Fits Condition.encode f.conditions

/-- The types of a mapping fit, and its fragments do. -/
structure TypeMapping.Fits (m : TypeMapping) : Prop where
  types : CollectionFits TextFits string m.types
  isOfTypes : CollectionFits TextFits string m.isOfTypes
  fragments : CollectionFits Fragment.Fits Fragment.encode m.fragments

/-- The names that a parameter is taken from fit. -/
def Member.Fits : Member → Prop
  | .path fields => SequenceFits FieldName.Fits fields
  | .farEnd name field => name.Fits ∧ field.Fits

/-- The name of a parameter fits, and so does what it is taken from. -/
structure Parameter.Fits (p : Parameter) : Prop where
  name : TextFits p.name
  member : p.member.Fits

/-- The names of a function and of its type fit, and its parameters do. -/
structure Function.Fits (f : Function) : Prop where
  type : TextFits f.type
  name : TextFits f.name
  parameters : CollectionFits Parameter.Fits Parameter.encode f.parameters

/-- The text of a view fits, and the name of its type does. -/
structure TypeView.Fits (v : TypeView) : Prop where
  type : TextFits v.type
  text : TextFits v.text

/-- All that is said about an extent fits. -/
structure ExtentMapping.Fits (m : ExtentMapping) : Prop where
  extent : TextFits m.extent
  queryView : ∀ view ∈ m.queryView, TextFits view
  typeViews : CollectionFits TypeView.Fits TypeView.encode m.typeViews
  typeMappings : CollectionFits TypeMapping.Fits TypeMapping.encode m.typeMappings
  functions : CollectionFits Function.Fits Function.encode m.functions

end Content

/-- Contents that say the same. -/
structure Content.Same (c c' : Content) : Prop where
  conceptual : c.conceptual = c'.conceptual
  store : c.store = c'.store
  entitySets : c.entitySets.Perm c'.entitySets
  associationSets : c.associationSets.Perm c'.associationSets
  types : Rearranged TypeContent.Same c.types c'.types
  associations : Rearranged Association.Same c.associations c'.associations
  tables : Rearranged Table.Same c.tables c'.tables
  extents : Rearranged ExtentMapping.Same c.extents c'.extents

/-- Contents whose texts, collections and nested encodings are all shorter than `2 ^ 32`. -/
structure Content.Fits (c : Content) : Prop where
  conceptual : TextFits c.conceptual
  store : TextFits c.store
  entitySets : CollectionFits EntitySet.Fits EntitySet.encode c.entitySets
  associationSets : CollectionFits AssociationSet.Fits AssociationSet.encode c.associationSets
  types : CollectionFits TypeContent.Fits TypeContent.encode c.types
  associations : CollectionFits Association.Fits Association.encode c.associations
  tables : CollectionFits Table.Fits Table.encode c.tables
  extents : CollectionFits ExtentMapping.Fits ExtentMapping.encode c.extents

end QueryViews
