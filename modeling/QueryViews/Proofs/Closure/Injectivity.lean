import QueryViews.Proofs.Closure.Sameness

/-!
# Bytes that tell contents apart

The encoding of each part of a content is legible, up to the order that carries no meaning, so two
contents with the same bytes say the same. Parts are read from the left: a text by its length, a
variant by its tag, a collection by its count and the lengths of its elements.

Besides lengths, two kinds of numbers are written in four bytes: the near end of a navigation and
the principal end of a constraint. A content is `Indexed` when these are short too.
-/

namespace QueryViews

open Encoding

namespace Encoding

/-- A collection that fits still does when more is known of its elements. -/
theorem CollectionFits.and {α : Type} {P Q : α → Prop} {encode : α → Bytes} {items : List α}
    (h : CollectionFits P encode items) (hq : ∀ a ∈ items, Q a) :
    CollectionFits (fun a => P a ∧ Q a) encode items :=
  ⟨h.length, fun a ha => ⟨h.item a ha, hq a ha⟩, h.encoded⟩

/-- A text that starts with a tag. -/
theorem tagged_eq {t t' : UInt8} {b b' r r' : Bytes} (h : (t :: b) ++ r = (t' :: b') ++ r') :
    t = t' ∧ b ++ r = b' ++ r' :=
  List.cons_eq_cons.1 h

end Encoding

/-- The name of a scalar type tells it. -/
theorem ScalarType.name_injective {t t' : ScalarType} (h : t.name = t'.name) : t = t' := by
  cases t <;> cases t' <;> first | rfl | exact absurd h (by decide)

theorem ScalarType.textFits_name (t : ScalarType) : TextFits t.name := by
  cases t <;> decide

theorem Multiplicity.name_injective {m m' : Multiplicity} (h : m.name = m'.name) : m = m' := by
  cases m <;> cases m' <;> first | rfl | exact absurd h (by decide)

theorem Multiplicity.textFits_name (m : Multiplicity) : TextFits m.name := by
  cases m <;> decide

theorem FunctionKind.name_injective {k k' : FunctionKind} (h : k.name = k'.name) : k = k' := by
  cases k <;> cases k' <;> first | rfl | exact absurd h (by decide)

theorem FunctionKind.textFits_name (k : FunctionKind) : TextFits k.name := by
  cases k <;> decide

namespace Content

/-! ## Names and constants -/

/-- Behind the name of the type, the name of the field can be read. -/
theorem FieldName.encode_legible : Legible FieldName.Fits (· = ·) FieldName.encode := by
  rintro ⟨owner, name⟩ ⟨owner', name'⟩ r r' hf hf' h
  simp only [FieldName.encode, List.append_assoc] at h
  obtain ⟨rfl, h₁⟩ := string_legible hf.owner hf'.owner h
  obtain ⟨rfl, h₂⟩ := string_legible hf.name hf'.name h₁
  exact ⟨rfl, h₂⟩

theorem ColumnName.encode_legible : Legible ColumnName.Fits (· = ·) ColumnName.encode := by
  rintro ⟨table, name⟩ ⟨table', name'⟩ r r' hf hf' h
  simp only [ColumnName.encode, List.append_assoc] at h
  obtain ⟨rfl, h₁⟩ := string_legible hf.table hf'.table h
  obtain ⟨rfl, h₂⟩ := string_legible hf.name hf'.name h₁
  exact ⟨rfl, h₂⟩

theorem EndName.encode_legible : Legible EndName.Fits (· = ·) EndName.encode := by
  rintro ⟨association, role⟩ ⟨association', role'⟩ r r' hf hf' h
  simp only [EndName.encode, List.append_assoc] at h
  obtain ⟨rfl, h₁⟩ := string_legible hf.association hf'.association h
  obtain ⟨rfl, h₂⟩ := string_legible hf.role hf'.role h₁
  exact ⟨rfl, h₂⟩

/-- The tag tells the kind of a constant, and the rest its value. -/
theorem encodeConstant_legible : Legible ConstantFits (· = ·) encodeConstant := by
  intro v v' r r' hf hf' h
  cases v <;> cases v' <;> obtain ⟨htag, h₁⟩ := tagged_eq h <;> first
    | exact absurd htag (by decide)
    | skip
  case bool.bool =>
    obtain ⟨rfl, h₂⟩ := flag_legible trivial trivial h₁
    exact ⟨rfl, h₂⟩
  case int.int =>
    obtain ⟨rfl, h₂⟩ := int64_legible trivial trivial h₁
    exact ⟨rfl, h₂⟩
  case text.text =>
    obtain ⟨rfl, h₂⟩ := string_legible hf hf' h₁
    exact ⟨rfl, h₂⟩
  case null.null => exact ⟨rfl, h₁⟩

/-! ## Types and relationships -/

theorem EntitySet.encode_legible : Legible EntitySet.Fits (· = ·) EntitySet.encode := by
  rintro ⟨name, type⟩ ⟨name', type'⟩ r r' hf hf' h
  simp only [EntitySet.encode, List.append_assoc] at h
  obtain ⟨rfl, h₁⟩ := string_legible hf.name hf'.name h
  obtain ⟨rfl, h₂⟩ := string_legible hf.type hf'.type h₁
  exact ⟨rfl, h₂⟩

/-- The four names can be read one after another. -/
theorem AssociationSet.encode_legible :
    Legible AssociationSet.Fits (· = ·) AssociationSet.encode := by
  rintro ⟨name, association, first, second⟩ ⟨name', association', first', second'⟩ r r' hf hf' h
  simp only [AssociationSet.encode, List.append_assoc] at h
  obtain ⟨rfl, h₁⟩ := string_legible hf.name hf'.name h
  obtain ⟨rfl, h₂⟩ := string_legible hf.association hf'.association h₁
  obtain ⟨rfl, h₃⟩ := string_legible hf.first hf'.first h₂
  obtain ⟨rfl, h₄⟩ := string_legible hf.second hf'.second h₃
  exact ⟨rfl, h₄⟩

/-- The near end of a navigation is a short number. -/
def FieldType.Indexed : FieldType → Prop
  | .navigation _ near => Short near
  | _ => True

/-- The tag tells the kind of a type. A number of an end can only be read if it is small. -/
theorem FieldType.encode_legible :
    Legible (fun t : FieldType => t.Fits ∧ t.Indexed) (· = ·) FieldType.encode := by
  intro t t' r r' hf hf' h
  cases t <;> cases t' <;> obtain ⟨htag, h₁⟩ := tagged_eq h <;> first
    | exact absurd htag (by decide)
    | skip
  case scalar.scalar type type' =>
    obtain ⟨hname, h₂⟩ := string_legible type.textFits_name type'.textFits_name h₁
    exact ⟨congrArg FieldType.scalar (ScalarType.name_injective hname), h₂⟩
  case embedded.embedded =>
    obtain ⟨rfl, h₂⟩ := string_legible hf.1 hf'.1 h₁
    exact ⟨rfl, h₂⟩
  case navigation.navigation =>
    rw [List.append_assoc, List.append_assoc] at h₁
    obtain ⟨rfl, h₂⟩ := string_legible hf.1 hf'.1 h₁
    obtain ⟨rfl, h₃⟩ := word_legible hf.2 hf'.2 h₂
    exact ⟨rfl, h₃⟩

/-- The number of the end that a field may go along is small. -/
def Field.Indexed (f : Field) : Prop := f.type.Indexed

/-- A field can be read, if the number of the end that it goes along is small. -/
theorem Field.encode_legible :
    Legible (fun f : Field => f.Fits ∧ f.Indexed) (· = ·) Field.encode := by
  rintro ⟨name, nullable, isToken, type⟩ ⟨name', nullable', isToken', type'⟩ r r' hf hf' h
  simp only [Field.encode, List.append_assoc] at h
  obtain ⟨rfl, h₁⟩ := string_legible hf.1.name hf'.1.name h
  obtain ⟨rfl, h₂⟩ := flag_legible trivial trivial h₁
  obtain ⟨rfl, h₃⟩ := flag_legible trivial trivial h₂
  obtain ⟨rfl, h₄⟩ := FieldType.encode_legible ⟨hf.1.type, hf.2⟩ ⟨hf'.1.type, hf'.2⟩ h₃
  exact ⟨rfl, h₄⟩

/-- The tag tells whether there is a base. -/
theorem encodeBase_legible :
    Legible (fun base : Option String => ∀ b ∈ base, TextFits b) (· = ·) encodeBase := by
  intro base base' r r' hf hf' h
  cases base <;> cases base' <;> obtain ⟨htag, h₁⟩ := tagged_eq h <;> first
    | exact absurd htag (by decide)
    | skip
  case none.none => exact ⟨rfl, h₁⟩
  case some.some b b' =>
    obtain ⟨rfl, h₂⟩ := string_legible (hf b rfl) (hf' b' rfl) h₁
    exact ⟨rfl, h₂⟩

/-- The kind of a type can be read. The key has an order, which can be read too. -/
theorem TypeKind.encode_legible : Legible TypeKind.Fits (· = ·) TypeKind.encode := by
  intro k k' r r' hf hf' h
  cases k <;> cases k' <;> obtain ⟨htag, h₁⟩ := tagged_eq h <;> first
    | exact absurd htag (by decide)
    | skip
  case entity.entity =>
    simp only [List.append_assoc] at h₁
    obtain ⟨rfl, h₂⟩ := encodeBase_legible hf.1 hf'.1 h₁
    obtain ⟨rfl, h₃⟩ := flag_legible trivial trivial h₂
    obtain ⟨hkey, h₄⟩ := sequence_legible FieldName.encode_legible hf.2 hf'.2 h₃
    rw [List.forall₂_eq_eq_eq] at hkey
    exact ⟨by rw [hkey], h₄⟩
  case embedded.embedded => exact ⟨rfl, h₁⟩

/-- The near ends of the navigations of a type are short numbers. -/
def TypeContent.Indexed (t : TypeContent) : Prop := ∀ f ∈ t.fields, f.Indexed

/-- A type can be read up to the order of its fields. -/
theorem TypeContent.encode_legible :
    Legible (fun t : TypeContent => t.Fits ∧ t.Indexed) TypeContent.Same TypeContent.encode := by
  intro t t' r r' hf hf' h
  simp only [TypeContent.encode, List.append_assoc] at h
  obtain ⟨hname, h₁⟩ := string_legible hf.1.name hf'.1.name h
  obtain ⟨hkind, h₂⟩ := TypeKind.encode_legible hf.1.kind hf'.1.kind h₁
  obtain ⟨hfields, h₃⟩ := unordered_legible Field.encode_legible (hf.1.fields.and hf.2)
    (hf'.1.fields.and hf'.2) h₂
  exact ⟨⟨hname, hkind, rearranged_eq_iff.1 hfields⟩, h₃⟩

theorem AssociationEnd.encode_legible :
    Legible AssociationEnd.Fits (· = ·) AssociationEnd.encode := by
  rintro ⟨role, type, multiplicity⟩ ⟨role', type', multiplicity'⟩ r r' hf hf' h
  simp only [AssociationEnd.encode, List.append_assoc] at h
  obtain ⟨rfl, h₁⟩ := string_legible hf.role hf'.role h
  obtain ⟨rfl, h₂⟩ := string_legible hf.type hf'.type h₁
  obtain ⟨hname, h₃⟩ := string_legible multiplicity.textFits_name multiplicity'.textFits_name h₂
  exact ⟨by rw [Multiplicity.name_injective hname], h₃⟩

theorem FieldPair.encode_legible : Legible FieldPair.Fits (· = ·)
    (fun (source, target) => source.encode ++ target.encode) := by
  rintro ⟨source, target⟩ ⟨source', target'⟩ r r' hf hf' h
  simp only [List.append_assoc] at h
  obtain ⟨rfl, h₁⟩ := FieldName.encode_legible hf.1 hf'.1 h
  obtain ⟨rfl, h₂⟩ := FieldName.encode_legible hf.2 hf'.2 h₁
  exact ⟨rfl, h₂⟩

/-- The principal end of a constraint is a short number. -/
def ForeignKey.Indexed (fk : ForeignKey) : Prop := Short fk.principal

/-- A constraint can be read up to the order of its pairs. -/
theorem ForeignKey.encode_legible :
    Legible (fun fk : ForeignKey => fk.Fits ∧ fk.Indexed) ForeignKey.Same ForeignKey.encode := by
  intro fk fk' r r' hf hf' h
  simp only [ForeignKey.encode, List.append_assoc] at h
  obtain ⟨hprincipal, h₁⟩ := word_legible hf.2 hf'.2 h
  obtain ⟨hfields, h₂⟩ := unordered_legible FieldPair.encode_legible hf.1.fields hf'.1.fields h₁
  exact ⟨⟨hprincipal, rearranged_eq_iff.1 hfields⟩, h₂⟩

/-- The principal ends of the constraints of a relationship are short numbers. -/
def Association.Indexed (a : Association) : Prop := ∀ fk ∈ a.constraints, fk.Indexed

/-- An association can be read up to the order of its constraints, and of the pairs in them. -/
theorem Association.encode_legible :
    Legible (fun a : Association => a.Fits ∧ a.Indexed) Association.Same Association.encode := by
  rintro ⟨name, isForeignKey, isAbstract, ⟨first, second⟩, constraints⟩
    ⟨name', isForeignKey', isAbstract', ⟨first', second'⟩, constraints'⟩ r r' hf hf' h
  simp only [Association.encode, List.append_assoc] at h
  obtain ⟨rfl, h₁⟩ := string_legible hf.1.name hf'.1.name h
  obtain ⟨rfl, h₂⟩ := flag_legible trivial trivial h₁
  obtain ⟨rfl, h₃⟩ := flag_legible trivial trivial h₂
  obtain ⟨rfl, h₄⟩ := AssociationEnd.encode_legible hf.1.first hf'.1.first h₃
  obtain ⟨rfl, h₅⟩ := AssociationEnd.encode_legible hf.1.second hf'.1.second h₄
  obtain ⟨hconstraints, h₆⟩ := unordered_legible ForeignKey.encode_legible
    (hf.1.constraints.and hf.2) (hf'.1.constraints.and hf'.2) h₅
  exact ⟨⟨rfl, rfl, rfl, rfl, hconstraints⟩, h₆⟩

/-! ## Tables -/

theorem encodeColumn_legible : Legible ColumnFits (· = ·) encodeColumn := by
  rintro ⟨name, type, nullable, isKey⟩ ⟨name', type', nullable', isKey'⟩ r r' hf hf' h
  simp only [encodeColumn, List.append_assoc] at h
  obtain ⟨rfl, h₁⟩ := string_legible hf hf' h
  obtain ⟨hname, h₂⟩ := string_legible type.textFits_name type'.textFits_name h₁
  obtain ⟨rfl, h₃⟩ := flag_legible trivial trivial h₂
  obtain ⟨rfl, h₄⟩ := flag_legible trivial trivial h₃
  exact ⟨by rw [ScalarType.name_injective hname], h₄⟩

/-- A table can be read up to the order of its columns. -/
theorem Table.encode_legible : Legible Table.Fits Table.Same Table.encode := by
  intro t t' r r' hf hf' h
  simp only [Table.encode, List.append_assoc] at h
  obtain ⟨hname, h₁⟩ := string_legible hf.name hf'.name h
  obtain ⟨hcolumns, h₂⟩ := unordered_legible encodeColumn_legible hf.columns hf'.columns h₁
  exact ⟨⟨hname, rearranged_eq_iff.1 hcolumns⟩, h₂⟩

/-! ## Mappings -/

theorem Binding.encode_legible : Legible Binding.Fits (· = ·)
    (fun (field, column) => field.encode ++ column.encode) := by
  rintro ⟨field, column⟩ ⟨field', column'⟩ r r' hf hf' h
  simp only [List.append_assoc] at h
  obtain ⟨rfl, h₁⟩ := FieldName.encode_legible hf.1 hf'.1 h
  obtain ⟨rfl, h₂⟩ := ColumnName.encode_legible hf.2 hf'.2 h₁
  exact ⟨rfl, h₂⟩

/-- That properties inside others fit is said of each of them. -/
theorem Property.allFit_iff {ps : List Property} :
    Property.AllFit ps ↔ ∀ p ∈ ps, p.Fits ∧ Short p.encode.length := by
  induction ps with
  | nil => simp [Property.AllFit]
  | cons p ps ih => simp [Property.AllFit, ih]

/-- Properties inside others are a collection like any other. -/
theorem Property.collectionFits {ps : List Property} (hlen : Short ps.length)
    (hall : Property.AllFit ps) : CollectionFits Property.Fits Property.encode ps := by
  rw [Property.allFit_iff] at hall
  exact ⟨hlen, fun p hp => (hall p hp).1, fun p hp => (hall p hp).2⟩

/-- Properties are legible at every depth: by induction on the first one, whose inner properties
are told apart before the collection of them is. -/
theorem Property.encode_legible : Legible Property.Fits Property.Same Property.encode
  | .scalar field column, .scalar field' column', r, r', hf, hf', h => by
    obtain ⟨-, h⟩ := tagged_eq h
    rw [List.append_assoc, List.append_assoc] at h
    obtain ⟨rfl, h₁⟩ := FieldName.encode_legible hf.1 hf'.1 h
    obtain ⟨rfl, h₂⟩ := ColumnName.encode_legible hf.2 hf'.2 h₁
    exact ⟨.scalar _ _, h₂⟩
  | .embedded field ps, .embedded field' ps', r, r', ⟨hfield, hlen, hall⟩,
      ⟨hfield', hlen', hall'⟩, h => by
    obtain ⟨-, h⟩ := tagged_eq h
    rw [List.append_assoc, List.append_assoc, Property.encodeAll_eq_map,
      Property.encodeAll_eq_map] at h
    obtain ⟨rfl, h₁⟩ := FieldName.encode_legible hfield hfield' h
    have hfits := Property.collectionFits hlen hall
    have hfits' := Property.collectionFits hlen' hall'
    -- `unordered_legible` asks for all properties at once, and only those inside this one are known
    -- to be legible
    have hinner : ∀ p ∈ ps, ∀ q ∈ ps', p.encode = q.encode → Property.Same p q := by
      intro p hp q hq heq
      have happ : p.encode ++ [] = q.encode ++ [] := by rw [heq]
      exact (Property.encode_legible (hfits.item p hp) (hfits'.item q hq) happ).1
    obtain ⟨hsame, h₂⟩ := rearranged_of_unordered_append_eq hfits hfits' hinner h₁
    exact ⟨.embedded _ hsame, h₂⟩
  | .ends name bindings, .ends name' bindings', r, r', hf, hf', h => by
    obtain ⟨-, h⟩ := tagged_eq h
    rw [List.append_assoc, List.append_assoc] at h
    obtain ⟨rfl, h₁⟩ := EndName.encode_legible hf.1 hf'.1 h
    obtain ⟨hsame, h₂⟩ := unordered_legible Binding.encode_legible hf.2 hf'.2 h₁
    exact ⟨.ends _ (rearranged_eq_iff.1 hsame), h₂⟩
  | .scalar .., .embedded .., _, _, _, _, h | .scalar .., .ends .., _, _, _, _, h
  | .embedded .., .scalar .., _, _, _, _, h | .embedded .., .ends .., _, _, _, _, h
  | .ends .., .scalar .., _, _, _, _, h | .ends .., .embedded .., _, _, _, _, h =>
    absurd (tagged_eq h).1 (by decide)
termination_by p => p

/-- The tag tells fields from columns. -/
theorem Target.encode_legible : Legible Target.Fits (· = ·) Target.encode := by
  intro t t' r r' hf hf' h
  cases t <;> cases t' <;> obtain ⟨htag, h₁⟩ := tagged_eq h <;> first
    | exact absurd htag (by decide)
    | skip
  case field.field =>
    obtain ⟨rfl, h₂⟩ := FieldName.encode_legible hf hf' h₁
    exact ⟨rfl, h₂⟩
  case column.column =>
    obtain ⟨rfl, h₂⟩ := ColumnName.encode_legible hf hf' h₁
    exact ⟨rfl, h₂⟩

/-- The tag tells the kind of a predicate. -/
theorem encodePredicate_legible : Legible PredicateFits (· = ·) encodePredicate := by
  intro p p' r r' hf hf' h
  cases p <;> cases p' <;> obtain ⟨htag, h₁⟩ := tagged_eq h <;> first
    | exact absurd htag (by decide)
    | skip
  case isNull.isNull => exact ⟨rfl, h₁⟩
  case isNotNull.isNotNull => exact ⟨rfl, h₁⟩
  case equals.equals =>
    obtain ⟨rfl, h₂⟩ := encodeConstant_legible hf hf' h₁
    exact ⟨rfl, h₂⟩

theorem Condition.encode_legible : Legible Condition.Fits (· = ·) Condition.encode := by
  rintro ⟨target, predicate⟩ ⟨target', predicate'⟩ r r' hf hf' h
  simp only [Condition.encode, List.append_assoc] at h
  obtain ⟨rfl, h₁⟩ := Target.encode_legible hf.target hf'.target h
  obtain ⟨rfl, h₂⟩ := encodePredicate_legible hf.predicate hf'.predicate h₁
  exact ⟨rfl, h₂⟩

/-- A fragment can be read up to the order of its properties, at every depth, and of its
conditions. -/
theorem Fragment.encode_legible : Legible Fragment.Fits Fragment.Same Fragment.encode := by
  intro f f' r r' hf hf' h
  simp only [Fragment.encode, List.append_assoc, Property.encodeAll_eq_map] at h
  obtain ⟨htable, h₁⟩ := string_legible hf.table hf'.table h
  obtain ⟨hproperties, h₂⟩ := unordered_legible Property.encode_legible hf.properties
    hf'.properties h₁
  obtain ⟨hconditions, h₃⟩ := unordered_legible Condition.encode_legible hf.conditions
    hf'.conditions h₂
  exact ⟨⟨htable, hproperties, rearranged_eq_iff.1 hconditions⟩, h₃⟩

/-- A mapping of types can be read up to order. -/
theorem TypeMapping.encode_legible :
    Legible TypeMapping.Fits TypeMapping.Same TypeMapping.encode := by
  intro m m' r r' hf hf' h
  simp only [TypeMapping.encode, List.append_assoc] at h
  obtain ⟨htypes, h₁⟩ := unordered_legible string_legible hf.types hf'.types h
  obtain ⟨hisOf, h₂⟩ := unordered_legible string_legible hf.isOfTypes hf'.isOfTypes h₁
  obtain ⟨hfragments, h₃⟩ := unordered_legible Fragment.encode_legible hf.fragments
    hf'.fragments h₂
  exact ⟨⟨rearranged_eq_iff.1 htypes, rearranged_eq_iff.1 hisOf, hfragments⟩, h₃⟩

/-- The tag tells paths from far ends. -/
theorem Member.encode_legible : Legible Member.Fits (· = ·) Member.encode := by
  intro m m' r r' hf hf' h
  cases m <;> cases m' <;> obtain ⟨htag, h₁⟩ := tagged_eq h <;> first
    | exact absurd htag (by decide)
    | skip
  case path.path =>
    obtain ⟨hfields, h₂⟩ := sequence_legible FieldName.encode_legible hf hf' h₁
    rw [List.forall₂_eq_eq_eq] at hfields
    exact ⟨congrArg Member.path hfields, h₂⟩
  case farEnd.farEnd =>
    rw [List.append_assoc, List.append_assoc] at h₁
    obtain ⟨rfl, h₂⟩ := EndName.encode_legible hf.1 hf'.1 h₁
    obtain ⟨rfl, h₃⟩ := FieldName.encode_legible hf.2 hf'.2 h₂
    exact ⟨rfl, h₃⟩

theorem Parameter.encode_legible : Legible Parameter.Fits (· = ·) Parameter.encode := by
  rintro ⟨name, version, member⟩ ⟨name', version', member'⟩ r r' hf hf' h
  simp only [Parameter.encode, List.append_assoc] at h
  obtain ⟨rfl, h₁⟩ := string_legible hf.name hf'.name h
  obtain ⟨hversion, h₂⟩ := flag_legible trivial trivial h₁
  obtain ⟨rfl, h₃⟩ := Member.encode_legible hf.member hf'.member h₂
  -- a version is one of two, and the flag says which
  have heq : version = version' := by cases version <;> cases version' <;> simp_all
  exact ⟨by rw [heq], h₃⟩

/-- A function can be read up to the order of its parameters. -/
theorem Function.encode_legible : Legible Function.Fits Function.Same Function.encode := by
  intro f f' r r' hf hf' h
  simp only [Function.encode, List.append_assoc] at h
  obtain ⟨htype, h₁⟩ := string_legible hf.type hf'.type h
  obtain ⟨hkind, h₂⟩ := string_legible f.kind.textFits_name f'.kind.textFits_name h₁
  obtain ⟨hname, h₃⟩ := string_legible hf.name hf'.name h₂
  obtain ⟨hparameters, h₄⟩ := unordered_legible Parameter.encode_legible hf.parameters
    hf'.parameters h₃
  exact ⟨⟨htype, FunctionKind.name_injective hkind, hname, rearranged_eq_iff.1 hparameters⟩, h₄⟩

theorem TypeView.encode_legible : Legible TypeView.Fits (· = ·) TypeView.encode := by
  rintro ⟨type, includeSubtypes, text⟩ ⟨type', includeSubtypes', text'⟩ r r' hf hf' h
  simp only [TypeView.encode, List.append_assoc] at h
  obtain ⟨rfl, h₁⟩ := string_legible hf.type hf'.type h
  obtain ⟨rfl, h₂⟩ := flag_legible trivial trivial h₁
  obtain ⟨rfl, h₃⟩ := string_legible hf.text hf'.text h₂
  exact ⟨rfl, h₃⟩

/-- The tag tells whether there is a view. -/
theorem encodeQueryView_legible :
    Legible (fun view : Option String => ∀ v ∈ view, TextFits v) (· = ·) encodeQueryView := by
  intro view view' r r' hf hf' h
  cases view <;> cases view' <;> obtain ⟨htag, h₁⟩ := tagged_eq h <;> first
    | exact absurd htag (by decide)
    | skip
  case none.none => exact ⟨rfl, h₁⟩
  case some.some v v' =>
    obtain ⟨rfl, h₂⟩ := string_legible (hf v rfl) (hf' v' rfl) h₁
    exact ⟨rfl, h₂⟩

/-- What is said about an extent can be read up to order. -/
theorem ExtentMapping.encode_legible :
    Legible ExtentMapping.Fits ExtentMapping.Same ExtentMapping.encode := by
  intro m m' r r' hf hf' h
  simp only [ExtentMapping.encode, List.append_assoc] at h
  obtain ⟨hextent, h₁⟩ := string_legible hf.extent hf'.extent h
  obtain ⟨hqueryView, h₂⟩ := encodeQueryView_legible hf.queryView hf'.queryView h₁
  obtain ⟨htypeViews, h₃⟩ := unordered_legible TypeView.encode_legible hf.typeViews
    hf'.typeViews h₂
  obtain ⟨htypeMappings, h₄⟩ := unordered_legible TypeMapping.encode_legible hf.typeMappings
    hf'.typeMappings h₃
  obtain ⟨hfunctions, h₅⟩ := unordered_legible Function.encode_legible hf.functions
    hf'.functions h₄
  exact ⟨⟨hextent, hqueryView, rearranged_eq_iff.1 htypeViews, htypeMappings, hfunctions⟩, h₅⟩

end Content

/-! ## Contents -/

/-- The numbers of a content that are not lengths are short. -/
structure Content.Indexed (c : Content) : Prop where
  types : ∀ t ∈ c.types, t.Indexed
  associations : ∀ a ∈ c.associations, a.Indexed

/-- Contents with the same bytes say the same. -/
theorem Content.same_of_encode_eq {c c' : Content} (hf : c.Fits) (hf' : c'.Fits) (hi : c.Indexed)
    (hi' : c'.Indexed) (h : c.encode = c'.encode) : c.Same c' := by
  simp only [Content.encode, List.append_assoc, List.cons_append] at h
  obtain ⟨-, h₁⟩ := List.cons_eq_cons.1 h
  obtain ⟨hconceptual, h₂⟩ := string_legible hf.conceptual hf'.conceptual h₁
  obtain ⟨hstore, h₃⟩ := string_legible hf.store hf'.store h₂
  obtain ⟨-, h₄⟩ := List.cons_eq_cons.1 h₃
  obtain ⟨hentitySets, h₅⟩ := unordered_legible EntitySet.encode_legible hf.entitySets
    hf'.entitySets h₄
  obtain ⟨-, h₆⟩ := List.cons_eq_cons.1 h₅
  obtain ⟨hassociationSets, h₇⟩ := unordered_legible AssociationSet.encode_legible
    hf.associationSets hf'.associationSets h₆
  obtain ⟨-, h₈⟩ := List.cons_eq_cons.1 h₇
  obtain ⟨htypes, h₉⟩ := unordered_legible TypeContent.encode_legible (hf.types.and hi.types)
    (hf'.types.and hi'.types) h₈
  obtain ⟨-, h₁₀⟩ := List.cons_eq_cons.1 h₉
  obtain ⟨hassociations, h₁₁⟩ := unordered_legible Association.encode_legible
    (hf.associations.and hi.associations) (hf'.associations.and hi'.associations) h₁₀
  obtain ⟨-, h₁₂⟩ := List.cons_eq_cons.1 h₁₁
  obtain ⟨htables, h₁₃⟩ := unordered_legible Table.encode_legible hf.tables hf'.tables h₁₂
  obtain ⟨-, h₁₄⟩ := List.cons_eq_cons.1 h₁₃
  -- the extents come last, so nothing follows them
  have hextents :=
    (unordered_legible ExtentMapping.encode_legible).related hf.extents hf'.extents h₁₄
  exact ⟨hconceptual, hstore, rearranged_eq_iff.1 hentitySets,
    rearranged_eq_iff.1 hassociationSets, htypes, hassociations, htables, hextents⟩

end QueryViews
