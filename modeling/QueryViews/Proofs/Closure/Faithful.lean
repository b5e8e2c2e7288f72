import QueryViews.Closure.Hash
import QueryViews.Proofs.Closure.Canonical
import QueryViews.Proofs.Closure.Short
import QueryViews.Proofs.Schema.Verified

/-!
# The bytes of a mapping are faithful

What a closure hash is taken of are bytes that say exactly what the mapping says: two mapped
containers, of one schema or of two, have the same bytes if and only if their contents are the
same up to the order that carries no meaning.

That the same content has the same bytes needs no condition. The other direction asks for lengths
that can be written, and for schemas that were verified, where the numbers of ends are small.
-/

namespace QueryViews

namespace Schema

variable {s : Schema}

/-- There is content where the container is mapped. -/
theorem content_eq_ok_some_iff {id : ContainerId} {c : Content} :
    s.content id = .ok (some c) ↔
      ∃ m, s.mapping.container? id = some m ∧ s.pairContent m = .ok c := by
  unfold content
  cases h : s.mapping.container? id with
  | none => exact ⟨nofun, fun ⟨_, hm, _⟩ => nomatch hm⟩
  | some m =>
    change (some <$> s.pairContent m) = _ ↔ _
    rw [map_eq_ok_iff]
    simp

/-- The parts of the content of a pair, each from its part of the schema. -/
theorem pairContent_eq_ok_iff {m : ContainerMapping} {c : Content} :
    s.pairContent m = .ok c ↔ ∃ conceptual store closure tables,
      s.conceptual.container m.conceptual = .ok conceptual ∧
      s.store.container m.store = .ok store ∧
      s.conceptual.closure conceptual = .ok closure ∧
      s.store.tablesIn m.store = .ok tables ∧
      conceptual.name = c.conceptual ∧ store.name = c.store ∧
      conceptual.entitySets.mapM s.entitySetContent = .ok c.entitySets ∧
      conceptual.associationSets.mapM s.associationSetContent = .ok c.associationSets ∧
      (closure.filterMap Element.model?).mapM s.typeContent = .ok c.types ∧
      (closure.filterMap Element.association?).mapM s.associationContent = .ok c.associations ∧
      (tables.map fun (_, t) => ⟨t.name, t.columns⟩) = c.tables ∧
      m.extents.mapM s.extentContent = .ok c.extents := by
  simp only [pairContent, bind_eq_ok_iff]
  constructor
  · rintro ⟨conceptual, hc, store, hs, entitySets, he, associationSets, ha, closure, hcl, types, ht,
      associations, has, tables, htb, extents, hx, hr⟩
    obtain rfl := Except.ok.inj hr
    exact ⟨conceptual, store, closure, tables, hc, hs, hcl, htb, rfl, rfl, he, ha, ht, has, rfl, hx⟩
  · rintro ⟨conceptual, store, closure, tables, hc, hs, hcl, htb, hn, hn', he, ha, ht, has, hts, hx⟩
    refine ⟨conceptual, hc, store, hs, _, he, _, ha, closure, hcl, _, ht, _, has, tables, htb, _,
      hx, ?_⟩
    rw [hn, hn', hts]
    rfl

/-- The content of a type, part by part. -/
theorem typeContent_eq_ok_iff {id : ModelId} {t : Content.TypeContent} :
    s.typeContent id = .ok t ↔ ∃ m, s.conceptual.model id = .ok m ∧ m.name = t.name ∧
      s.kindContent m.kind = .ok t.kind ∧ m.fields.mapM s.fieldContent = .ok t.fields := by
  simp only [typeContent, bind_eq_ok_iff]
  refine exists_congr fun m => and_congr_right fun _ => ?_
  constructor
  · rintro ⟨kind, hkind, fields, hfields, hr⟩
    cases hr
    exact ⟨rfl, hkind, hfields⟩
  · rintro ⟨hname, hkind, hfields⟩
    exact ⟨_, hkind, _, hfields, by rw [hname]; rfl⟩

/-- The content of an entity set, part by part. -/
theorem entitySetContent_eq_ok_iff {set : EntitySet} {c : Content.EntitySet} :
    s.entitySetContent set = .ok c ↔ set.name = c.name ∧ s.modelName set.model = .ok c.type := by
  simp only [entitySetContent, bind_eq_ok_iff]
  constructor
  · rintro ⟨type, htype, hr⟩
    cases hr
    exact ⟨rfl, htype⟩
  · rintro ⟨hname, htype⟩
    exact ⟨_, htype, by rw [hname]; rfl⟩

/-- The content of an association set, part by part. -/
theorem associationSetContent_eq_ok_iff {set : AssociationSet} {c : Content.AssociationSet} :
    s.associationSetContent set = .ok c ↔ set.name = c.name ∧
      s.associationName set.association = .ok c.association ∧ (set.ends.resolve fun id => do
        return (← s.conceptual.entitySet id).name) = .ok c.ends := by
  simp only [associationSetContent, bind_eq_ok_iff]
  constructor
  · rintro ⟨association, hassociation, ends, hends, hr⟩
    cases hr
    exact ⟨rfl, hassociation, hends⟩
  · rintro ⟨hname, hassociation, hends⟩
    exact ⟨_, hassociation, _, hends, by rw [hname]; rfl⟩

/-- The content of an association, part by part. -/
theorem associationContent_eq_ok_iff {id : AssociationId} {c : Content.Association} :
    s.associationContent id = .ok c ↔ ∃ a, s.conceptual.association id = .ok a ∧
      a.name = c.name ∧ a.isForeignKey = c.isForeignKey ∧ a.isAbstract = c.isAbstract ∧
      a.ends.resolve s.endContent = .ok c.ends ∧
      a.constraints.mapM s.constraintContent = .ok c.constraints := by
  simp only [associationContent, bind_eq_ok_iff]
  refine exists_congr fun a => and_congr_right fun _ => ?_
  constructor
  · rintro ⟨ends, hends, constraints, hconstraints, hr⟩
    cases hr
    exact ⟨rfl, rfl, rfl, hends, hconstraints⟩
  · rintro ⟨hname, hforeign, habstract, hends, hconstraints⟩
    exact ⟨_, hends, _, hconstraints, by rw [hname, hforeign, habstract]; rfl⟩

/-- In a verified schema navigations go along small numbers of ends. -/
theorem Verified.indexed_typeContent (hv : s.Verified) {id : ModelId} {t : Content.TypeContent}
    (h : s.typeContent id = .ok t) : t.Indexed := by
  obtain ⟨m, hm, -, -, hfields⟩ := typeContent_eq_ok_iff.1 h
  intro f hf
  obtain ⟨field, hmem, hcontent⟩ := exists_of_mem_mapM hfields hf
  obtain ⟨type, htype, hr⟩ := bind_eq_ok_iff.1 hcontent
  obtain rfl := Except.ok.inj hr
  change type.Indexed
  have hmodel : m ∈ s.conceptual.models :=
    mem_of_found hm
  cases hft : field.type with
  | scalar type' =>
    rw [hft] at htype
    cases htype
    trivial
  | embedded target =>
    rw [hft] at htype
    obtain ⟨name, -, hr⟩ := bind_eq_ok_iff.1 htype
    cases hr
    trivial
  | navigation a near far =>
    rw [hft] at htype
    obtain ⟨name, -, hr⟩ := bind_eq_ok_iff.1 htype
    cases hr
    exact Nat.lt_trans (hv.near_lt_two hmodel hmem hft) (by decide)

/-- In a verified schema the principal ends of constraints have small numbers. -/
theorem Verified.indexed_associationContent (hv : s.Verified) {id : AssociationId}
    {a : Content.Association} (h : s.associationContent id = .ok a) : a.Indexed := by
  obtain ⟨declared, hd, -, -, -, -, hconstraints⟩ := associationContent_eq_ok_iff.1 h
  intro fk hfk
  obtain ⟨constraint, hmem, hcontent⟩ := exists_of_mem_mapM hconstraints hfk
  obtain ⟨fields, -, hr⟩ := bind_eq_ok_iff.1 hcontent
  obtain rfl := Except.ok.inj hr
  have hdeclared : declared ∈ s.conceptual.associations :=
    mem_of_found hd
  exact Nat.lt_trans (hv.principal_lt_two hdeclared hmem) (by decide)

/-- The contents of verified schemas have small numbers of ends. -/
theorem Verified.indexed_content (hv : s.Verified) {id : ContainerId} {c : Content}
    (h : s.content id = .ok (some c)) : c.Indexed := by
  obtain ⟨m, -, hm⟩ := content_eq_ok_some_iff.1 h
  obtain ⟨_, _, _, _, -, -, -, -, -, -, -, -, htypes, hassociations, -, -⟩ :=
    pairContent_eq_ok_iff.1 hm
  refine ⟨fun t ht => ?_, fun a ha => ?_⟩
  · obtain ⟨id, -, hid⟩ := exists_of_mem_mapM htypes ht
    exact hv.indexed_typeContent hid
  · obtain ⟨id, -, hid⟩ := exists_of_mem_mapM hassociations ha
    exact hv.indexed_associationContent hid

end Schema

/-! ## Hashes -/

theorem ClosureHash.compute_of_content {s : Schema} {id : ContainerId} {c : Content}
    (h : s.content id = .ok (some c)) : compute s id = .ok (some (ofContent c)) := by
  rw [compute, h]
  rfl

/-- Contents that say the same have one hash. -/
theorem Content.Same.hash_eq {c c' : Content} (h : c.Same c') :
    ClosureHash.ofContent c = ClosureHash.ofContent c' := by
  simp only [ClosureHash.ofContent, h.encode_eq]

/-! ## A shop declared in two orders -/

namespace Shop

open Encoding

/-- The mapping of a type with nothing but a key to a table with nothing but a key. -/
def keyMapping (model : ModelId) (table : TableId) : TypeMapping :=
  ⟨[model], [], [⟨table, [.scalar ⟨⟨model, 0⟩, ⟨table, 0⟩⟩], []⟩]⟩

/-- Two types with a set and a table each, declared in the order given. -/
def declarations (first second : String) : List Declaration := [
  .entity first, .entity second,
  .field .key ⟨0⟩ "Id" .int32, .field .key ⟨1⟩ "Id" .int32,
  .container "Shop", .entitySet ⟨0⟩ first ⟨0⟩, .entitySet ⟨0⟩ second ⟨1⟩,
  .storeContainer "Db", .table ⟨0⟩ first, .table ⟨0⟩ second,
  .column .key ⟨0⟩ "Id" .int32, .column .key ⟨1⟩ "Id" .int32,
  .mapContainers ⟨0⟩ ⟨0⟩,
  .mapExtent (.entitySet ⟨⟨0⟩, 0⟩) (.typeMapping (keyMapping ⟨0⟩ ⟨0⟩)),
  .mapExtent (.entitySet ⟨⟨0⟩, 1⟩) (.typeMapping (keyMapping ⟨1⟩ ⟨1⟩))]

/-- The schema that they make. -/
def schema (first second : String) : Schema where
  conceptual := {
    models := [
      ⟨first, [⟨"Id", .scalar .int32, false, false⟩], .entity ⟨none, false, [⟨⟨0⟩, 0⟩]⟩⟩,
      ⟨second, [⟨"Id", .scalar .int32, false, false⟩], .entity ⟨none, false, [⟨⟨1⟩, 0⟩]⟩⟩]
    associations := []
    containers := [⟨"Shop", [⟨first, ⟨0⟩⟩, ⟨second, ⟨1⟩⟩], []⟩] }
  store := {
    containers := [⟨"Db", [⟨0⟩, ⟨1⟩]⟩]
    tables := [
      ⟨⟨0⟩, first, [⟨"Id", .int32, false, true⟩], [⟨⟨0⟩, 0⟩]⟩,
      ⟨⟨0⟩, second, [⟨"Id", .int32, false, true⟩], [⟨⟨1⟩, 0⟩]⟩] }
  mapping := ⟨[⟨⟨0⟩, ⟨0⟩, [
    ⟨.entitySet ⟨⟨0⟩, 0⟩, none, [], [keyMapping ⟨0⟩ ⟨0⟩], []⟩,
    ⟨.entitySet ⟨⟨0⟩, 1⟩, none, [], [keyMapping ⟨1⟩ ⟨1⟩], []⟩]⟩]⟩

/-- The content of the type of a name. -/
def type (name : String) : Content.TypeContent :=
  ⟨name, .entity none false [⟨name, "Id"⟩], [⟨"Id", false, false, .scalar .int32⟩]⟩

/-- The content of the mapping of the set of a name. -/
def extent (name : String) : Content.ExtentMapping :=
  ⟨"Shop." ++ name, none, [],
    [⟨[name], [], [⟨name, [.scalar ⟨name, "Id"⟩ ⟨name, "Id"⟩], []⟩]⟩], []⟩

/-- The content of the shop; the walk through its types ends with the first one. -/
def content (first second : String) : Content where
  conceptual := "Shop"
  store := "Db"
  entitySets := [⟨first, first⟩, ⟨second, second⟩]
  associationSets := []
  types := [type second, type first]
  associations := []
  tables := [⟨first, [⟨"Id", .int32, false, true⟩]⟩, ⟨second, [⟨"Id", .int32, false, true⟩]⟩]
  extents := [extent first, extent second]

/-- The ids that are issued on the way. -/
def issued : List Issued := [
  .model ⟨0⟩, .model ⟨1⟩, .field ⟨⟨0⟩, 0⟩, .field ⟨⟨1⟩, 0⟩,
  .container ⟨0⟩, .entitySet ⟨⟨0⟩, 0⟩, .entitySet ⟨⟨0⟩, 1⟩,
  .store ⟨0⟩, .table ⟨0⟩, .table ⟨1⟩, .column ⟨⟨0⟩, 0⟩, .column ⟨⟨1⟩, 0⟩,
  .nothing, .nothing, .nothing]

theorem built : (schema "Item" "Tag").Built :=
  ⟨declarations "Item" "Tag", issued, by cbv⟩

theorem built_reordered : (schema "Tag" "Item").Built :=
  ⟨declarations "Tag" "Item", issued, by cbv⟩

/-- What the mapping of the shop says. -/
theorem content_eq : (schema "Item" "Tag").content ⟨0⟩ = .ok (some (content "Item" "Tag")) := by
  cbv

/-- Declared in the other order, the walk meets the types in the other order. -/
theorem content_eq_reordered :
    (schema "Tag" "Item").content ⟨0⟩ = .ok (some (content "Tag" "Item")) := by
  cbv

/-- Either order gives the same bytes: each collection is one of two, told from either side. -/
theorem encode_eq : (content "Item" "Tag").encode = (content "Tag" "Item").encode := by
  have hpair {α : Type} (encode : α → Bytes) (a b : α) :
      unordered encode [a, b] = unordered encode [b, a] :=
    unordered_eq_of_perm (.swap b a [])
  simp only [Content.encode, content]
  rw [hpair Content.EntitySet.encode, hpair Content.TypeContent.encode,
    hpair Content.Table.encode, hpair Content.ExtentMapping.encode]

theorem encode_short : Short (content "Item" "Tag").encode.length := by
  simp only [Content.encode, content, type, extent, Content.EntitySet.encode,
    Content.TypeContent.encode, Content.TypeKind.encode, Content.encodeBase,
    Content.FieldName.encode, Content.Field.encode, Content.FieldType.encode, Content.Table.encode,
    Content.encodeColumn, Content.ExtentMapping.encode, Content.encodeQueryView,
    Content.TypeMapping.encode, Content.Fragment.encode, Content.Property.encodeAll,
    Content.Property.encode, Content.ColumnName.encode, length_unordered, length_string,
    length_sequence, length_sorted, length_sized, List.flatMap_cons, List.flatMap_nil,
    List.length_append, List.length_cons]
  decide

theorem fits : (content "Item" "Tag").Fits := Content.encode_measured encode_short

theorem fits_reordered : (content "Tag" "Item").Fits :=
  Content.encode_measured (encode_eq ▸ encode_short)

end Shop

/-! ## Faithfulness -/

/-- **The closure encoding is faithful.** Two mapped containers of built schemas have the same
bytes exactly if they say the same. -/
theorem Schema.encode_eq_iff_same {s s' : Schema} (hs : s.Built) (hs' : s'.Built)
    {id id' : ContainerId} {c c' : Content} (hc : s.content id = .ok (some c))
    (hc' : s'.content id' = .ok (some c')) (hf : c.Fits) (hf' : c'.Fits) :
    c.encode = c'.encode ↔ c.Same c' :=
  ⟨Content.same_of_encode_eq hf hf' (hs.verified.indexed_content hc)
    (hs'.verified.indexed_content hc'), Content.Same.encode_eq⟩

/-- The shop has the same bytes in either order, so it says the same. -/
theorem Schema.shop_same :
    (Shop.schema "Item" "Tag").Built ∧ (Shop.schema "Tag" "Item").Built ∧
    (Shop.schema "Item" "Tag").content ⟨0⟩ = .ok (some (Shop.content "Item" "Tag")) ∧
    (Shop.schema "Tag" "Item").content ⟨0⟩ = .ok (some (Shop.content "Tag" "Item")) ∧
    (Shop.content "Item" "Tag").Fits ∧ (Shop.content "Tag" "Item").Fits ∧
    (Shop.content "Item" "Tag").encode = (Shop.content "Tag" "Item").encode ∧
    (Shop.content "Item" "Tag").Same (Shop.content "Tag" "Item") := by
  have hiff := Schema.encode_eq_iff_same Shop.built Shop.built_reordered Shop.content_eq
    Shop.content_eq_reordered Shop.fits Shop.fits_reordered
  exact ⟨Shop.built, Shop.built_reordered, Shop.content_eq, Shop.content_eq_reordered, Shop.fits,
    Shop.fits_reordered, Shop.encode_eq, hiff.1 Shop.encode_eq⟩

end QueryViews
