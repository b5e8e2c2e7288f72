import QueryViews.Proofs.Closure.Closed
import QueryViews.Proofs.Schema.Names

/-!
# Links

A schema is full of ids, each of which links to something in it. In a built schema many of them
resolve, because a check looked them up or because of the way in which schemas are put together
(`Schema.Checked`, `Schema.Built.resolves`). The others are taken on trust (`Schema.Trusted`): the
conceptual side of a pair, the element types of entity sets, the fields that a foreign key reads,
and all that stands in the mapping of an extent, apart from the extent itself and the tables.
-/

namespace QueryViews

/-- What an id links to. -/
inductive Link
  | model (id : ModelId)
  | field (id : FieldId)
  | association (id : AssociationId)
  | associationEnd (id : EndId)
  | container (id : ContainerId)
  | extent (e : Extent)
  | store (id : StoreId)
  | table (id : TableId)
  | column (id : ColumnId)
  deriving DecidableEq

/-- The schema has what is linked to. -/
def Link.Resolves (s : Schema) : Link → Prop
  | .model id => ∃ m, s.conceptual.model id = .ok m
  | .field id => ∃ f, s.conceptual.field id = .ok f
  | .association id => ∃ a, s.conceptual.association id = .ok a
  | .associationEnd id => ∃ e, s.conceptual.associationEnd id = .ok e
  | .container id => ∃ c, s.conceptual.container id = .ok c
  | .extent e => ∃ name, s.extentName e = .ok name
  | .store id => ∃ c, s.store.container id = .ok c
  | .table id => ∃ t, s.store.table id = .ok t
  | .column id => ∃ c, s.store.column id = .ok c

instance (s : Schema) : DecidablePred (Link.Resolves s)
  | .model id => decidableExistsOk (s.conceptual.model id)
  | .field id => decidableExistsOk (s.conceptual.field id)
  | .association id => decidableExistsOk (s.conceptual.association id)
  | .associationEnd id => decidableExistsOk (s.conceptual.associationEnd id)
  | .container id => decidableExistsOk (s.conceptual.container id)
  | .extent e => decidableExistsOk (s.extentName e)
  | .store id => decidableExistsOk (s.store.container id)
  | .table id => decidableExistsOk (s.store.table id)
  | .column id => decidableExistsOk (s.store.column id)

/-! ## The ids in the mapping of an extent -/

/-- A field and its column. -/
def ColumnBinding.links (b : ColumnBinding) : List Link :=
  [.field b.field, .column b.column]

mutual

/-- The fields, columns and ends of a property, at every depth. -/
def PropertyMapping.links : PropertyMapping → List Link
  | .scalar b => b.links
  | .embedded field properties => .field field :: PropertyMapping.linksAll properties
  | .ends id bindings => .associationEnd id :: bindings.flatMap ColumnBinding.links

/-- What the properties of a list refer to. -/
def PropertyMapping.linksAll : List PropertyMapping → List Link
  | [] => []
  | p :: rest => p.links ++ PropertyMapping.linksAll rest

end

/-- The field or the column that a condition is about. -/
def ConditionTarget.link : ConditionTarget → Link
  | .field id => .field id
  | .column id => .column id

/-- What a fragment refers to besides its table. -/
def Fragment.links (f : Fragment) : List Link :=
  PropertyMapping.linksAll f.properties ++ f.conditions.map fun c => c.target.link

/-- The types of a mapping, and what its fragments refer to. -/
def TypeMapping.links (m : TypeMapping) : List Link :=
  m.types.map .model ++ m.isOfTypes.map .model ++ m.fragments.flatMap Fragment.links

/-- The fields of a path, or the far end and the field there. -/
def ParameterMember.links : ParameterMember → List Link
  | .path fields => fields.map .field
  | .farEnd id field => [.associationEnd id, .field field]

/-- The type that a function writes, and what its parameters are taken from. -/
def FunctionMapping.links (f : FunctionMapping) : List Link :=
  .model f.type :: f.parameters.flatMap fun p => p.member.links

/-- What the mapping of an extent refers to besides the extent and the tables. -/
def ExtentMapping.links (m : ExtentMapping) : List Link :=
  m.typeViews.map (fun v => .model v.type) ++ m.typeMappings.flatMap TypeMapping.links ++
    m.functions.flatMap FunctionMapping.links

namespace Schema

/-! ## Checked and trusted -/

/-- The ids in a schema that resolve because a check looks them up, or because of how they got
there. -/
inductive Checked (s : Schema) : Link → Prop
  | base {id base : ModelId} {m : Model} (hm : s.conceptual.model id = .ok m)
    (hbase : m.base? = some base) : Checked s (.model base)
  | key {id : ModelId} {m : Model} {e : EntityType} {f : FieldId}
    (hm : s.conceptual.model id = .ok m) (he : m.entity? = some e) (hf : f ∈ e.key) :
    Checked s (.field f)
  | embedded {id target : ModelId} {m : Model} {f : Field} (hm : s.conceptual.model id = .ok m)
    (hf : f ∈ m.fields) (htype : f.type = .embedded target) : Checked s (.model target)
  | navigated {id : ModelId} {m : Model} {f : Field} {association : AssociationId} {near far : Nat}
    (hm : s.conceptual.model id = .ok m) (hf : f ∈ m.fields)
    (htype : f.type = .navigation association near far) : Checked s (.association association)
  | near {id : ModelId} {m : Model} {f : Field} {association : AssociationId} {near far : Nat}
    (hm : s.conceptual.model id = .ok m) (hf : f ∈ m.fields)
    (htype : f.type = .navigation association near far) :
    Checked s (.associationEnd ⟨association, near⟩)
  | far {id : ModelId} {m : Model} {f : Field} {association : AssociationId} {near far : Nat}
    (hm : s.conceptual.model id = .ok m) (hf : f ∈ m.fields)
    (htype : f.type = .navigation association near far) :
    Checked s (.associationEnd ⟨association, far⟩)
  | endType {id : AssociationId} {a : Association} {index : Nat} {e : AssociationEnd}
    (ha : s.conceptual.association id = .ok a) (he : a.ends.get? index = some e) :
    Checked s (.model e.model)
  | principal {id : AssociationId} {a : Association} {fk : ForeignKey}
    (ha : s.conceptual.association id = .ok a) (hfk : fk ∈ a.constraints) :
    Checked s (.associationEnd ⟨id, fk.principal⟩)
  | dependent {id : AssociationId} {a : Association} {fk : ForeignKey}
    (ha : s.conceptual.association id = .ok a) (hfk : fk ∈ a.constraints) :
    Checked s (.associationEnd ⟨id, fk.dependent⟩)
  | target {id : AssociationId} {a : Association} {fk : ForeignKey} {pair : ForeignKeyField}
    (ha : s.conceptual.association id = .ok a) (hfk : fk ∈ a.constraints)
    (hpair : pair ∈ fk.fields) : Checked s (.field pair.target)
  /-- the type that a source is a field of, though not the field -/
  | sourceType {id : AssociationId} {a : Association} {fk : ForeignKey} {pair : ForeignKeyField}
    (ha : s.conceptual.association id = .ok a) (hfk : fk ∈ a.constraints)
    (hpair : pair ∈ fk.fields) : Checked s (.model pair.source.model)
  | relationship {id : AssociationSetId} {set : AssociationSet}
    (hset : s.conceptual.associationSet id = .ok set) : Checked s (.association set.association)
  | bound {id : AssociationSetId} {set : AssociationSet} {index : Nat} {bound : EntitySetId}
    (hset : s.conceptual.associationSet id = .ok set)
    (hbound : set.ends.get? index = some bound) : Checked s (.extent (.entitySet bound))
  | storeOf {id : TableId} {t : Table} (ht : s.store.table id = .ok t) :
    Checked s (.store t.container)
  | keyColumn {id : TableId} {t : Table} {c : ColumnId} (ht : s.store.table id = .ok t)
    (hc : c ∈ t.key) : Checked s (.column c)
  | stored {id : StoreId} {owner : StoreContainer} {t : TableId}
    (howner : s.store.container id = .ok owner) (ht : t ∈ owner.tables) : Checked s (.table t)
  | store {m : ContainerMapping} (hm : m ∈ s.mapping.containers) : Checked s (.store m.store)
  | extent {m : ContainerMapping} {e : ExtentMapping} (hm : m ∈ s.mapping.containers)
    (he : e ∈ m.extents) : Checked s (.extent e.extent)
  | fragment {m : ContainerMapping} {e : ExtentMapping} {f : Fragment}
    (hm : m ∈ s.mapping.containers) (he : e ∈ m.extents) (hf : f ∈ e.fragments) :
    Checked s (.table f.table)
  /-- the table that a column is in, though not the column -/
  | columnTable {m : ContainerMapping} {e : ExtentMapping} {f : Fragment} {c : ColumnId}
    (hm : m ∈ s.mapping.containers) (he : e ∈ m.extents) (hf : f ∈ e.fragments)
    (hc : .column c ∈ f.links) : Checked s (.table c.table)

/-- The ids in a schema that no check looks up. -/
inductive Trusted (s : Schema) : Link → Prop
  | container {m : ContainerMapping} (hm : m ∈ s.mapping.containers) :
    Trusted s (.container m.conceptual)
  | element {id : EntitySetId} {set : EntitySet} (hset : s.conceptual.entitySet id = .ok set) :
    Trusted s (.model set.model)
  | source {id : AssociationId} {a : Association} {fk : ForeignKey} {pair : ForeignKeyField}
    (ha : s.conceptual.association id = .ok a) (hfk : fk ∈ a.constraints)
    (hpair : pair ∈ fk.fields) : Trusted s (.field pair.source)
  | mapped {m : ContainerMapping} {e : ExtentMapping} {r : Link}
    (hm : m ∈ s.mapping.containers) (he : e ∈ m.extents) (hr : r ∈ e.links) : Trusted s r

variable {s : Schema}

/-! ## Types and relationships -/

/-- Key fields are there, since they are issued with the field that they are. -/
theorem Built.exists_keyField (hs : s.Built) {id : ModelId} {m : Model} {e : EntityType}
    {f : FieldId} (hm : s.conceptual.model id = .ok m) (he : m.entity? = some e) (hf : f ∈ e.key) :
    ∃ declared, s.conceptual.field f = .ok declared :=
  (Conceptual.exists_field_of_mem hm (hs.ownsKeys id m hm e he f hf)).2

/-- A navigation goes to the other end. -/
theorem Built.far_eq (hs : s.Built) {id : ModelId} {m : Model} {f : Field}
    {association : AssociationId} {near far : Nat} (hm : s.conceptual.model id = .ok m)
    (hf : f ∈ m.fields) (htype : f.type = .navigation association near far) : far = 1 - near := by
  have h := (hs.declared id m hm).across f hf
  rwa [htype] at h

/-- Both ends of a relationship are there. -/
theorem exists_associationEnd {id : AssociationId} {a : Association}
    (ha : s.conceptual.association id = .ok a) {index : Nat} (hindex : index < 2) :
    ∃ e, s.conceptual.associationEnd ⟨id, index⟩ = .ok e := by
  obtain ⟨e, he⟩ := a.ends.exists_get? hindex
  exact ⟨e, Conceptual.associationEnd_eq_ok_iff.2 ⟨a, ha, he⟩⟩

/-- The key fields that a foreign key refers to are there, and the types whose fields it reads. -/
theorem Built.exists_pair (hs : s.Built) {id : AssociationId} {a : Association} {fk : ForeignKey}
    {pair : ForeignKeyField} (ha : s.conceptual.association id = .ok a) (hfk : fk ∈ a.constraints)
    (hpair : pair ∈ fk.fields) : (∃ f, s.conceptual.field pair.target = .ok f) ∧
      ∃ m, s.conceptual.model pair.source.model = .ok m := by
  obtain ⟨principal, dependent, key, -, -, hkey, hlines⟩ :=
    hs.verified.linesUp (mem_of_found ha) hfk
  constructor
  · have htarget := hlines.targets.subset (List.mem_map_of_mem hpair)
    exact (hs.exists_root_of_mem_key hkey htarget).2
  · obtain ⟨chain, hchain, habove⟩ :=
      Conceptual.isAssignable_eq_true_iff.1 (hlines.sources pair hpair)
    exact (Conceptual.chain_of_ancestors hchain).exists_model habove

/-- The entity sets that an association set binds are there. -/
theorem Verified.exists_entitySet (hv : s.Verified) {id : AssociationSetId} {set : AssociationSet}
    {index : Nat} {bound : EntitySetId} (hset : s.conceptual.associationSet id = .ok set)
    (hbound : set.ends.get? index = some bound) :
    ∃ entitySet, s.conceptual.entitySet bound = .ok entitySet := by
  obtain ⟨a, ha⟩ := hv.exists_association hset
  obtain ⟨e, he⟩ := a.ends.exists_get? (lt_two_of_get?_eq_some hbound)
  obtain ⟨element, helement, -⟩ := hv.holds_end hset ha hbound he
  obtain ⟨entitySet, hentitySet, -⟩ := bind_eq_ok_iff.1 helement
  exact ⟨entitySet, hentitySet⟩

/-! ## The extents and tables of mappings -/

/-- Each mapping of an extent passed its check. -/
theorem Verified.checkExtent (hv : s.Verified) {m : ContainerMapping}
    (hm : m ∈ s.mapping.containers) {e : ExtentMapping} (he : e ∈ m.extents) :
    s.checkExtent m.store e = .ok () :=
  forM_eq_ok_iff.1 (forM_eq_ok_iff.1 hv.mappings m hm) e he

/-- The extent of a mapping is there, and its fragments were checked. -/
theorem Verified.exists_extentName (hv : s.Verified) {m : ContainerMapping}
    (hm : m ∈ s.mapping.containers) {e : ExtentMapping} (he : e ∈ m.extents) :
    ∃ name, s.extentName e.extent = .ok name ∧
      ∀ f ∈ e.fragments, s.checkFragment m.store name f = .ok () := by
  have h := hv.checkExtent hm he
  rw [Schema.checkExtent] at h
  split at h
  · cases h
  · obtain ⟨name, hname, h⟩ := bind_eq_ok_iff.1 h
    exact ⟨name, lift_eq_ok_iff.1 hname, forM_eq_ok_iff.1 h⟩

mutual

/-- The columns of a property that passed its check are in the table of the fragment. -/
theorem table_of_checkProperty {name : String} {table : TableId} :
    ∀ p : PropertyMapping, s.checkProperty name table p = .ok () →
      ∀ c, .column c ∈ p.links → c.table = table
  | .scalar b, h => by
    intro c hc
    rw [checkProperty] at h
    split at h
    · rename_i heq
      simp only [PropertyMapping.links, ColumnBinding.links, List.mem_cons,
        List.not_mem_nil, or_false, reduceCtorEq, false_or, Link.column.injEq] at hc
      exact hc ▸ heq
    · obtain ⟨f, -, h⟩ := bind_eq_ok_iff.1 h
      cases h
  | .embedded field properties, h => by
    intro c hc
    rw [checkProperty] at h
    rw [PropertyMapping.links] at hc
    exact table_of_checkProperties properties h c (by simpa using hc)
  | .ends id bindings, h => by
    intro c hc
    rw [checkProperty] at h
    split at h
    · rename_i hall
      simp only [PropertyMapping.links, ColumnBinding.links, List.mem_cons,
        List.mem_flatMap, List.not_mem_nil, or_false, reduceCtorEq, false_or,
        Link.column.injEq] at hc
      obtain ⟨b, hb, rfl⟩ := hc
      simpa using List.all_eq_true.1 hall b hb
    · cases h

/-- Columns of properties that passed are of the table of the fragment, at every depth. -/
theorem table_of_checkProperties {name : String} {table : TableId} :
    ∀ ps : List PropertyMapping, s.checkProperties name table ps = .ok () →
      ∀ c, .column c ∈ PropertyMapping.linksAll ps → c.table = table
  | [], _ => by simp [PropertyMapping.linksAll]
  | p :: rest, h => by
    intro c hc
    rw [checkProperties] at h
    obtain ⟨⟨⟩, hp, hrest⟩ := bind_eq_ok_iff.1 h
    rw [PropertyMapping.linksAll] at hc
    rcases List.mem_append.1 hc with hc | hc
    · exact table_of_checkProperty p hp c hc
    · exact table_of_checkProperties rest hrest c hc

end

/-- The table of a fragment is there, and the columns of the fragment are in it. -/
theorem exists_table_of_checkFragment {store : StoreId} {name : String} {f : Fragment}
    (h : s.checkFragment store name f = .ok ()) : (∃ t, s.store.table f.table = .ok t) ∧
      ∀ c, .column c ∈ f.links → c.table = f.table := by
  obtain ⟨t, ht, h⟩ := bind_eq_ok_iff.1 h
  refine ⟨⟨t, lift_eq_ok_iff.1 ht⟩, fun c hc => ?_⟩
  simp only at h
  split at h
  · cases h
  · obtain ⟨⟨⟩, hproperties, hconditions⟩ := bind_eq_ok_iff.1 h
    rcases List.mem_append.1 hc with hc | hc
    · exact table_of_checkProperties _ hproperties c hc
    · obtain ⟨condition, hcondition, hc⟩ := List.mem_map.1 hc
      have hcheck := forM_eq_ok_iff.1 hconditions condition hcondition
      cases htarget : condition.target with
      | field id =>
        rw [htarget] at hc
        cases hc
      | column id =>
        rw [htarget] at hc
        cases hc
        simp only [checkCondition, htarget] at hcheck
        split at hcheck
        · assumption
        · cases hcheck

/-- The table of a fragment is there, and the columns are columns of it. -/
theorem Verified.exists_table (hv : s.Verified) {m : ContainerMapping}
    (hm : m ∈ s.mapping.containers) {e : ExtentMapping} (he : e ∈ m.extents) {f : Fragment}
    (hf : f ∈ e.fragments) : (∃ t, s.store.table f.table = .ok t) ∧
      ∀ c, .column c ∈ f.links → c.table = f.table := by
  obtain ⟨name, -, hfragments⟩ := hv.exists_extentName hm he
  exact exists_table_of_checkFragment (hfragments f hf)

/-! ## What is checked resolves -/

/-- **Every id that is checked resolves.** -/
theorem Built.resolves (hs : s.Built) {r : Link} (h : s.Checked r) : r.Resolves s := by
  have hv := hs.verified
  cases h with
  -- a check has looked it up, or a declaration issued what it refers to
  | base hm hbase => exact hv.exists_base hm hbase
  | key hm he hf => exact hs.exists_keyField hm he hf
  | embedded hm hf htype =>
    obtain ⟨t, ht, -⟩ := hv.exists_embedded hm hf htype
    exact ⟨t, ht⟩
  | navigated hm hf htype =>
    obtain ⟨a, -, ha, -⟩ := hv.exists_navigated hm hf htype
    exact ⟨a, ha⟩
  | near hm hf htype =>
    obtain ⟨a, e, ha, he, -⟩ := hv.exists_navigated hm hf htype
    exact ⟨e, Conceptual.associationEnd_eq_ok_iff.2 ⟨a, ha, he⟩⟩
  | far hm hf htype =>
    obtain ⟨a, -, ha, -⟩ := hv.exists_navigated hm hf htype
    have hfar := hs.far_eq hm hf htype
    exact exists_associationEnd ha (by omega)
  | endType ha he =>
    obtain ⟨m, hm, -⟩ := hv.exists_end (mem_of_found ha) he
    exact ⟨m, hm⟩
  | principal ha hfk =>
    obtain ⟨principal, -, -, hp, -⟩ :=
      hv.linesUp (mem_of_found ha) hfk
    exact exists_associationEnd ha (lt_two_of_get?_eq_some hp)
  | dependent ha hfk =>
    obtain ⟨-, dependent, -, -, hd, -⟩ :=
      hv.linesUp (mem_of_found ha) hfk
    exact exists_associationEnd ha (lt_two_of_get?_eq_some hd)
  | target ha hfk hpair => exact (hs.exists_pair ha hfk hpair).1
  | sourceType ha hfk hpair => exact (hs.exists_pair ha hfk hpair).2
  | relationship hset => exact hv.exists_association hset
  | bound hset hbound =>
    obtain ⟨entitySet, hentitySet⟩ := hv.exists_entitySet hset hbound
    obtain ⟨owner, howner, -⟩ := Conceptual.entitySet_eq_ok_iff.1 hentitySet
    exact ⟨_, bind_eq_ok_iff.2 ⟨owner, howner, bind_eq_ok_iff.2 ⟨entitySet, hentitySet, rfl⟩⟩⟩
  -- nothing looks up what the store side says of itself: it got there by declarations
  | storeOf ht =>
    obtain ⟨hlt, -⟩ := hs.placed _ _ (found_eq_ok_iff.1 ht)
    exact ⟨_, found_eq_ok_iff.2 (List.getElem?_eq_getElem hlt)⟩
  | keyColumn ht hc =>
    obtain ⟨-, hkey⟩ := hs.placed _ _ (found_eq_ok_iff.1 ht)
    obtain ⟨rfl, hlt⟩ := hkey _ hc
    exact ⟨_, bind_eq_ok_iff.2 ⟨_, ht, found_eq_ok_iff.2 (List.getElem?_eq_getElem hlt)⟩⟩
  | stored howner ht =>
    obtain ⟨-, hall⟩ := hs.owned _ _ (found_eq_ok_iff.1 howner)
    obtain ⟨t, ht, -⟩ := hall _ ht
    exact ⟨t, found_eq_ok_iff.2 ht⟩
  | store hm => exact hv.exists_store hm
  | extent hm he =>
    obtain ⟨name, hname, -⟩ := hv.exists_extentName hm he
    exact ⟨name, hname⟩
  | fragment hm he hf => exact (hv.exists_table hm he hf).1
  | columnTable hm he hf hc =>
    obtain ⟨ht, htable⟩ := hv.exists_table hm he hf
    rw [← htable _ hc] at ht
    exact ht

end Schema

end QueryViews
