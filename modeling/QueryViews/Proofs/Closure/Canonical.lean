import QueryViews.Proofs.Closure.Sameness

/-!
# One writing for each content

Contents that say the same have the same bytes, whatever their size. Sorting the encodings of a
collection makes the order in which its elements were declared disappear, and this holds at every
depth, because equal things have equal encodings before they are sorted.
-/

namespace QueryViews

open Encoding

namespace Encoding

/-- Sorting by bytes does not see the order there was before. -/
theorem sorted_eq_of_perm {parts parts' : List Bytes} (h : parts.Perm parts') :
    sorted parts = sorted parts' := by
  have htrans : ∀ a b c : Bytes, decide (a ≤ b) = true → decide (b ≤ c) = true →
      decide (a ≤ c) = true := by
    intro a b c hab hbc
    exact decide_eq_true (List.le_trans (of_decide_eq_true hab) (of_decide_eq_true hbc))
  have htotal : ∀ a b : Bytes, (decide (a ≤ b) || decide (b ≤ a)) = true := by
    intro a b
    rcases List.le_total a b with hab | hba
    · simp [hab]
    · simp [hba]
  have hperm : (parts.mergeSort fun a b => decide (a ≤ b)).Perm
      (parts'.mergeSort fun a b => decide (a ≤ b)) :=
    (List.mergeSort_perm _ _).trans (h.trans (List.mergeSort_perm _ _).symm)
  have hsorted := List.pairwise_mergeSort htrans htotal parts
  have hsorted' := List.pairwise_mergeSort htrans htotal parts'
  -- bytes are totally ordered, so one list alone is sorted and has these elements
  have heq := List.Perm.eq_of_pairwise (fun a b _ _ hab hba =>
    List.le_antisymm (of_decide_eq_true hab) (of_decide_eq_true hba)) hsorted hsorted' hperm
  rw [sorted, sorted, heq]

variable {α : Type} {encode : α → Bytes}

/-- A collection is written alike in whatever order it is. -/
theorem unordered_eq_of_perm {items items' : List α} (h : items.Perm items') :
    unordered encode items = unordered encode items' :=
  sorted_eq_of_perm (h.map encode)

/-- Collections of things that are written alike are written alike, whatever their order. -/
theorem unordered_eq_of_rearranged {R : α → α → Prop} {items items' : List α}
    (h : Rearranged R items items')
    (he : ∀ a ∈ items, ∀ b ∈ items', R a b → encode a = encode b) :
    unordered encode items = unordered encode items' := by
  have hrel : Multiset.Rel (fun a b => encode a = encode b) (items : Multiset α) items' :=
    h.mono fun a ha b hb hab => he a ha b hb hab
  have hmap :
      Multiset.map encode (items : Multiset α) = Multiset.map encode (items' : Multiset α) := by
    rw [← Multiset.rel_eq, Multiset.rel_map]
    exact hrel
  exact sorted_eq_of_perm (Multiset.coe_eq_coe.1 hmap)

end Encoding

namespace Content

/-- A type is written alike in whatever order its fields are. -/
theorem TypeContent.Same.encode_eq {t t' : TypeContent} (h : t.Same t') :
    t.encode = t'.encode := by
  rw [TypeContent.encode, TypeContent.encode, h.name, h.kind, unordered_eq_of_perm h.fields]

/-- A constraint is written alike in whatever order its pairs are. -/
theorem ForeignKey.Same.encode_eq {fk fk' : ForeignKey} (h : fk.Same fk') :
    fk.encode = fk'.encode := by
  rw [ForeignKey.encode, ForeignKey.encode, h.principal, unordered_eq_of_perm h.fields]

/-- An association is written alike. Its constraints are the same up to order at two depths, so each
of them is written alike first. -/
theorem Association.Same.encode_eq {a a' : Association} (h : a.Same a') :
    a.encode = a'.encode := by
  have hconstraints := unordered_eq_of_rearranged h.constraints
    fun _ _ _ _ hfk => ForeignKey.Same.encode_eq hfk
  rw [Association.encode, Association.encode, h.name, h.isForeignKey, h.isAbstract, h.ends,
    hconstraints]

theorem Table.Same.encode_eq {t t' : Table} (h : t.Same t') : t.encode = t'.encode := by
  rw [Table.encode, Table.encode, h.name, unordered_eq_of_perm h.columns]

/-- By induction on the first property, whose inner properties have equal encodings before the
collection of them is sorted. -/
theorem Property.Same.encode_eq : ∀ {p p' : Property}, p.Same p' → p.encode = p'.encode
  | _, _, .scalar _ _ => rfl
  | .embedded field ps, .embedded _ ps', .embedded _ h => by
    have hinner : unordered Property.encode ps = unordered Property.encode ps' :=
      unordered_eq_of_rearranged h fun p _ q _ hpq => Property.Same.encode_eq hpq
    rw [unordered, unordered] at hinner
    rw [Property.encode, Property.encode, Property.encodeAll_eq_map, Property.encodeAll_eq_map,
      hinner]
  | _, _, .ends name h => by
    rw [Property.encode, Property.encode, unordered_eq_of_perm h]
termination_by p => p

/-- A fragment is written alike, since its properties are at every depth. -/
theorem Fragment.Same.encode_eq {f f' : Fragment} (h : f.Same f') : f.encode = f'.encode := by
  have hproperties := unordered_eq_of_rearranged h.properties
    fun _ _ _ _ hp => Property.Same.encode_eq hp
  rw [unordered, unordered] at hproperties
  rw [Fragment.encode, Fragment.encode, Property.encodeAll_eq_map, Property.encodeAll_eq_map,
    h.table, hproperties, unordered_eq_of_perm h.conditions]

/-- A mapping of types is written alike, since its fragments are. -/
theorem TypeMapping.Same.encode_eq {m m' : TypeMapping} (h : m.Same m') :
    m.encode = m'.encode := by
  have hfragments := unordered_eq_of_rearranged h.fragments
    fun _ _ _ _ hf => Fragment.Same.encode_eq hf
  rw [TypeMapping.encode, TypeMapping.encode, unordered_eq_of_perm h.types,
    unordered_eq_of_perm h.isOfTypes, hfragments]

theorem Function.Same.encode_eq {f f' : Function} (h : f.Same f') : f.encode = f'.encode := by
  rw [Function.encode, Function.encode, h.type, h.kind, h.name,
    unordered_eq_of_perm h.parameters]

/-- What is said about an extent is written alike, since each part of it is. -/
theorem ExtentMapping.Same.encode_eq {m m' : ExtentMapping} (h : m.Same m') :
    m.encode = m'.encode := by
  have htypeMappings := unordered_eq_of_rearranged h.typeMappings
    fun _ _ _ _ hm => TypeMapping.Same.encode_eq hm
  have hfunctions := unordered_eq_of_rearranged h.functions
    fun _ _ _ _ hf => Function.Same.encode_eq hf
  rw [ExtentMapping.encode, ExtentMapping.encode, h.extent, h.queryView,
    unordered_eq_of_perm h.typeViews, htypeMappings, hfunctions]

end Content

/-- Contents that say the same have the same bytes. -/
theorem Content.Same.encode_eq {c c' : Content} (h : c.Same c') : c.encode = c'.encode := by
  have htypes := unordered_eq_of_rearranged h.types
    fun _ _ _ _ ht => TypeContent.Same.encode_eq ht
  have hassociations := unordered_eq_of_rearranged h.associations
    fun _ _ _ _ ha => Association.Same.encode_eq ha
  have htables := unordered_eq_of_rearranged h.tables
    fun _ _ _ _ ht => Table.Same.encode_eq ht
  have hextents := unordered_eq_of_rearranged h.extents
    fun _ _ _ _ hm => ExtentMapping.Same.encode_eq hm
  rw [Content.encode, Content.encode, h.conceptual, h.store, unordered_eq_of_perm h.entitySets,
    unordered_eq_of_perm h.associationSets, htypes, hassociations, htables, hextents]

end QueryViews
