import QueryViews.Proofs.Closure.Injectivity

/-!
# Short bytes

A content fits if its bytes are short (`Content.encode_measured`): nothing in it is longer than its
encoding, so a single length, that of the bytes that are hashed, bounds all others.
-/

namespace QueryViews

namespace Encoding

/-- What has a short encoding fits. -/
def Measured {α : Type} (Fits : α → Prop) (encode : α → Bytes) : Prop :=
  ∀ ⦃a : α⦄, Short (encode a).length → Fits a

variable {α : Type} {Fits : α → Prop} {encode : α → Bytes}

/-! ## Lengths -/

@[simp]
theorem length_sized (bytes : Bytes) : (sized bytes).length = 4 + bytes.length := by
  rw [sized, List.length_append]
  rfl

/-- A text takes the bytes of its size after the four that tell it. -/
@[simp]
theorem length_string (s : String) : (string s).length = 4 + s.utf8ByteSize := by
  rw [string, length_sized, length_toUTF8_toList]

@[simp]
theorem length_sequence (encode : α → Bytes) (items : List α) :
    (sequence encode items).length = 4 + (items.flatMap encode).length := by
  rw [sequence, List.length_append]
  rfl

/-- Sorting only moves the parts. -/
@[simp]
theorem length_sorted (parts : List Bytes) :
    (sorted parts).length = 4 + (parts.flatMap sized).length := by
  have hperm := (List.mergeSort_perm parts fun a b => decide (a ≤ b)).flatMap_right sized
  rw [sorted, length_sequence, hperm.length_eq]

@[simp]
theorem length_unordered (encode : α → Bytes) (items : List α) :
    (unordered encode items).length = 4 + (items.flatMap fun a => sized (encode a)).length := by
  rw [unordered, length_sorted, List.flatMap_map]

/-! ## Parts -/

/-- The parts of something short are short. -/
theorem short_append {l r : Bytes} (h : Short (l ++ r).length) :
    Short l.length ∧ Short r.length := by
  rw [List.length_append] at h
  exact ⟨Nat.lt_of_le_of_lt (Nat.le_add_right _ _) h, Nat.lt_of_le_of_lt (Nat.le_add_left _ _) h⟩

/-- What follows a tag is short if the whole is. -/
theorem short_cons {t : UInt8} {l : Bytes} (h : Short (t :: l).length) : Short l.length :=
  Nat.lt_of_succ_lt h

/-- A text with a short encoding is short. -/
theorem string_measured : Measured TextFits string := by
  intro s h
  obtain ⟨-, h⟩ := short_append h
  rwa [length_toUTF8_toList] at h

/-- Each element of something short is short. -/
theorem short_of_mem {items : List α} (h : Short (items.flatMap encode).length) {a : α}
    (ha : a ∈ items) : Short (encode a).length := by
  induction items with
  | nil => cases ha
  | cons b items ih =>
    rw [List.flatMap_cons] at h
    obtain ⟨hb, hrest⟩ := short_append h
    rcases List.mem_cons.1 ha with rfl | ha
    · exact hb
    · exact ih hrest ha

/-- There are not more elements than bytes, if each has a byte at least. -/
theorem length_le_flatMap (hpos : ∀ a, 0 < (encode a).length) (items : List α) :
    items.length ≤ (items.flatMap encode).length := by
  induction items with
  | nil => exact Nat.le_refl 0
  | cons a items ih =>
    have ha := hpos a
    rw [List.flatMap_cons, List.length_append, List.length_cons]
    omega

/-- The elements of a short sequence are short, and few if each takes a byte. -/
theorem sequence_measured (he : Measured Fits encode) (hpos : ∀ a, 0 < (encode a).length) :
    Measured (SequenceFits Fits) (sequence encode) := by
  intro items h
  obtain ⟨-, h⟩ := short_append h
  exact ⟨Nat.lt_of_le_of_lt (length_le_flatMap hpos items) h, fun a ha => he (short_of_mem h ha)⟩

/-- Sorting loses no part, and each part has four bytes for its length besides its own. -/
theorem sorted_measured :
    Measured (SequenceFits fun part : Bytes => Short part.length) sorted := by
  intro parts h
  have hsized : Measured (fun part : Bytes => Short part.length) sized :=
    fun _ h => (short_append h).2
  obtain ⟨hlength, hparts⟩ := sequence_measured hsized (fun _ => Nat.zero_lt_succ _) h
  rw [List.length_mergeSort] at hlength
  exact ⟨hlength, fun part hpart => hparts part (List.mem_mergeSort.2 hpart)⟩

/-- A collection with a short encoding fits, and so does each element. -/
theorem unordered_measured (he : Measured Fits encode) :
    Measured (CollectionFits Fits encode) (unordered encode) := by
  intro items h
  have hparts := sorted_measured h
  have hall (a : α) (ha : a ∈ items) : Short (encode a).length :=
    hparts.item _ (List.mem_map_of_mem ha)
  have hlength := hparts.length
  rw [List.length_map] at hlength
  exact ⟨hlength, fun a ha => he (hall a ha), hall⟩

end Encoding

open Encoding

namespace Content

/-! ## Names and constants -/

/-- Both names are in the bytes of a field. -/
theorem FieldName.encode_measured : Measured FieldName.Fits FieldName.encode := by
  intro f h
  obtain ⟨howner, hname⟩ := short_append h
  exact ⟨string_measured howner, string_measured hname⟩

theorem ColumnName.encode_measured : Measured ColumnName.Fits ColumnName.encode := by
  intro c h
  obtain ⟨htable, hname⟩ := short_append h
  exact ⟨string_measured htable, string_measured hname⟩

theorem EndName.encode_measured : Measured EndName.Fits EndName.encode := by
  intro e h
  obtain ⟨hassociation, hrole⟩ := short_append h
  exact ⟨string_measured hassociation, string_measured hrole⟩

/-- The text of a constant is in its bytes. -/
theorem encodeConstant_measured : Measured ConstantFits encodeConstant := by
  intro c h
  cases c with
  | text s => exact string_measured (short_cons h)
  | _ => trivial

/-! ## Types and relationships -/

theorem EntitySet.encode_measured : Measured EntitySet.Fits EntitySet.encode := by
  intro s h
  obtain ⟨hname, htype⟩ := short_append h
  exact ⟨string_measured hname, string_measured htype⟩

theorem AssociationSet.encode_measured : Measured AssociationSet.Fits AssociationSet.encode := by
  intro s h
  obtain ⟨h, hsecond⟩ := short_append h
  obtain ⟨h, hfirst⟩ := short_append h
  obtain ⟨hname, hassociation⟩ := short_append h
  exact ⟨string_measured hname, string_measured hassociation, string_measured hfirst,
    string_measured hsecond⟩

theorem FieldType.encode_measured : Measured FieldType.Fits FieldType.encode := by
  intro t h
  cases t with
  | scalar type => trivial
  | embedded type => exact string_measured (short_cons h)
  | navigation association near => exact string_measured (short_append (short_cons h)).1

theorem Field.encode_measured : Measured Field.Fits Field.encode := by
  intro f h
  obtain ⟨h, htype⟩ := short_append h
  exact ⟨string_measured (short_append (short_append h).1).1, FieldType.encode_measured htype⟩

theorem TypeKind.encode_measured : Measured TypeKind.Fits TypeKind.encode := by
  intro k h
  cases k with
  | entity base isAbstract key =>
    obtain ⟨h, hkey⟩ := short_append (short_cons h)
    obtain ⟨hbase, -⟩ := short_append h
    refine ⟨fun b hb => ?_, sequence_measured FieldName.encode_measured ?_ hkey⟩
    · cases hb
      exact string_measured (short_cons hbase)
    · exact fun f => Nat.zero_lt_succ _
  | embedded => trivial

/-- All that is said of a type is in its bytes. -/
theorem TypeContent.encode_measured : Measured TypeContent.Fits TypeContent.encode := by
  intro t h
  obtain ⟨h, hfields⟩ := short_append h
  obtain ⟨hname, hkind⟩ := short_append h
  exact ⟨string_measured hname, TypeKind.encode_measured hkind,
    unordered_measured Field.encode_measured hfields⟩

theorem AssociationEnd.encode_measured : Measured AssociationEnd.Fits AssociationEnd.encode := by
  intro e h
  obtain ⟨hrole, htype⟩ := short_append (short_append h).1
  exact ⟨string_measured hrole, string_measured htype⟩

theorem ForeignKey.encode_measured : Measured ForeignKey.Fits ForeignKey.encode := by
  intro fk h
  refine ⟨unordered_measured (fun pair hpair => ?_) (short_append h).2⟩
  obtain ⟨hsource, htarget⟩ := short_append hpair
  exact ⟨FieldName.encode_measured hsource, FieldName.encode_measured htarget⟩

/-- All that is said of an association is in its bytes. -/
theorem Association.encode_measured : Measured Association.Fits Association.encode := by
  intro a h
  obtain ⟨h, hconstraints⟩ := short_append h
  obtain ⟨h, hsecond⟩ := short_append h
  obtain ⟨h, hfirst⟩ := short_append h
  exact ⟨string_measured (short_append (short_append h).1).1,
    AssociationEnd.encode_measured hfirst, AssociationEnd.encode_measured hsecond,
    unordered_measured ForeignKey.encode_measured hconstraints⟩

/-! ## Tables -/

theorem Table.encode_measured : Measured Table.Fits Table.encode := by
  intro t h
  obtain ⟨hname, hcolumns⟩ := short_append h
  refine ⟨string_measured hname, unordered_measured (fun c hc => ?_) hcolumns⟩
  exact string_measured (short_append (short_append (short_append hc).1).1).1

/-! ## Mappings -/

/-- Properties fit at every depth, by induction on their nesting. -/
theorem Property.encode_measured : Measured Property.Fits Property.encode
  | .scalar field column, h => by
    obtain ⟨hfield, hcolumn⟩ := short_append (short_cons h)
    exact ⟨FieldName.encode_measured hfield, ColumnName.encode_measured hcolumn⟩
  | .embedded field ps, h => by
    obtain ⟨hfield, hps⟩ := short_append (short_cons h)
    rw [Property.encodeAll_eq_map] at hps
    have hparts := sorted_measured hps
    have hall (p : Property) (hp : p ∈ ps) : Short p.encode.length :=
      hparts.item _ (List.mem_map_of_mem hp)
    have hlength := hparts.length
    rw [List.length_map] at hlength
    refine ⟨FieldName.encode_measured hfield, hlength, Property.allFit_iff.2 fun p hp => ?_⟩
    exact ⟨Property.encode_measured (hall p hp), hall p hp⟩
  | .ends name bindings, h => by
    obtain ⟨hname, hbindings⟩ := short_append (short_cons h)
    refine ⟨EndName.encode_measured hname, unordered_measured (fun b hb => ?_) hbindings⟩
    obtain ⟨hfield, hcolumn⟩ := short_append hb
    exact ⟨FieldName.encode_measured hfield, ColumnName.encode_measured hcolumn⟩
termination_by p => p

theorem Condition.encode_measured : Measured Condition.Fits Condition.encode := by
  intro c h
  obtain ⟨htarget, hpredicate⟩ := short_append h
  refine ⟨?_, ?_⟩
  · revert htarget
    cases c.target with
    | field name => exact fun h => FieldName.encode_measured (short_cons h)
    | column name => exact fun h => ColumnName.encode_measured (short_cons h)
  · revert hpredicate
    cases c.predicate with
    | equals value => exact fun h => encodeConstant_measured (short_cons h)
    | _ => exact fun _ => trivial

/-- All that is said in a fragment is in its bytes, the properties at every depth too. -/
theorem Fragment.encode_measured : Measured Fragment.Fits Fragment.encode := by
  intro f h
  obtain ⟨h, hconditions⟩ := short_append h
  obtain ⟨htable, hproperties⟩ := short_append h
  rw [Property.encodeAll_eq_map] at hproperties
  exact ⟨string_measured htable, unordered_measured Property.encode_measured hproperties,
    unordered_measured Condition.encode_measured hconditions⟩

theorem TypeMapping.encode_measured : Measured TypeMapping.Fits TypeMapping.encode := by
  intro m h
  obtain ⟨h, hfragments⟩ := short_append h
  obtain ⟨htypes, hisOfTypes⟩ := short_append h
  exact ⟨unordered_measured string_measured htypes, unordered_measured string_measured hisOfTypes,
    unordered_measured Fragment.encode_measured hfragments⟩

theorem Member.encode_measured : Measured Member.Fits Member.encode := by
  intro m h
  cases m with
  | path fields =>
    exact sequence_measured FieldName.encode_measured (fun f => Nat.zero_lt_succ _) (short_cons h)
  | farEnd name field =>
    obtain ⟨hname, hfield⟩ := short_append (short_cons h)
    exact ⟨EndName.encode_measured hname, FieldName.encode_measured hfield⟩

theorem Function.encode_measured : Measured Function.Fits Function.encode := by
  intro f h
  obtain ⟨h, hparameters⟩ := short_append h
  obtain ⟨h, hname⟩ := short_append h
  refine ⟨string_measured (short_append h).1, string_measured hname,
    unordered_measured (fun p hp => ?_) hparameters⟩
  obtain ⟨hp, hmember⟩ := short_append hp
  exact ⟨string_measured (short_append hp).1, Member.encode_measured hmember⟩

theorem TypeView.encode_measured : Measured TypeView.Fits TypeView.encode := by
  intro v h
  obtain ⟨h, htext⟩ := short_append h
  exact ⟨string_measured (short_append h).1, string_measured htext⟩

/-- All that is said about an extent is in its bytes. -/
theorem ExtentMapping.encode_measured : Measured ExtentMapping.Fits ExtentMapping.encode := by
  intro m h
  obtain ⟨h, hfunctions⟩ := short_append h
  obtain ⟨h, htypeMappings⟩ := short_append h
  obtain ⟨h, htypeViews⟩ := short_append h
  obtain ⟨hextent, hview⟩ := short_append h
  refine ⟨string_measured hextent, fun view hmem => ?_,
    unordered_measured TypeView.encode_measured htypeViews,
    unordered_measured TypeMapping.encode_measured htypeMappings,
    unordered_measured Function.encode_measured hfunctions⟩
  rw [Option.mem_def.1 hmem] at hview
  exact string_measured (short_cons hview)

end Content

/-- Content with a short encoding fits. -/
theorem Content.encode_measured : Measured Content.Fits Content.encode := by
  intro c h
  obtain ⟨h, hextents⟩ := short_append h
  obtain ⟨h, htables⟩ := short_append h
  obtain ⟨h, hassociations⟩ := short_append h
  obtain ⟨h, htypes⟩ := short_append h
  obtain ⟨h, hassociationSets⟩ := short_append h
  obtain ⟨h, hentitySets⟩ := short_append h
  obtain ⟨hconceptual, hstore⟩ := short_append (short_cons h)
  exact ⟨string_measured hconceptual, string_measured hstore,
    unordered_measured EntitySet.encode_measured (short_cons hentitySets),
    unordered_measured AssociationSet.encode_measured (short_cons hassociationSets),
    unordered_measured TypeContent.encode_measured (short_cons htypes),
    unordered_measured Association.encode_measured (short_cons hassociations),
    unordered_measured Table.encode_measured (short_cons htables),
    unordered_measured ExtentMapping.encode_measured (short_cons hextents)⟩

end QueryViews
