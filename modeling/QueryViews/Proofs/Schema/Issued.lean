import QueryViews.Proofs.Schema.Growth

/-!
# What issued ids stand for

The id that a declaration issues is the next free place among its siblings, and what was declared
is found there: at once, and ever after, since schemas only grow. A place that is taken is never
free again, so no id is issued twice (`Schema.declared_stays`).
-/

namespace QueryViews

/-- What is appended is found behind what was there. -/
theorem found_append_self {α : Type} (l : List α) (a : α) (f : Fault) :
    found (l ++ [a])[l.length]? f = .ok a :=
  found_eq_ok_iff.2 List.getElem?_concat_length

/-- What takes the place of something is found there. -/
theorem found_set_self {α : Type} {l : List α} {index : Nat} {f : Fault} {a : α}
    (h : found l[index]? f = .ok a) (a' : α) : found (l.set index a')[index]? f = .ok a' :=
  found_eq_ok_iff.2 (List.getElem?_set_self (List.getElem?_eq_some_iff.1 (found_eq_ok_iff.1 h)).1)

/-- The last field of a type that took the place of another one is found at its place. -/
theorem Conceptual.field_setModel {c : Conceptual} {id : ModelId} {m m' : Model}
    (hm : c.model id = .ok m) {f : Field} (hfields : m'.fields = m.fields ++ [f]) :
    (c.setModel id m').field ⟨id, m.fields.length⟩ = .ok f := by
  refine bind_eq_ok_iff.2 ⟨m', found_set_self hm m', ?_⟩
  rw [hfields]
  exact found_append_self _ f _

namespace Mapping

variable {m m' : Mapping}

/-- A container that has just been paired is paired. -/
theorem mem_paired_pair (m : Mapping) (id : ContainerId) (store : StoreId) :
    id ∈ (m.pair id store).paired := by
  rw [paired_pair]
  split
  · assumption
  · exact List.mem_append_right _ List.mem_cons_self

/-- Only the extents of paired containers have mappings to edit. -/
theorem exists_mem_paired_of_edit {e : Extent} {edit : MappingEdit} (h : m.edit e edit = .ok m') :
    ∃ id, e.container? = some id ∧ id ∈ m.paired := by
  cases e with
  | table id => cases h
  | entitySet set | associationSet set =>
    obtain ⟨c, hc, -⟩ := bind_eq_ok_iff.1 h
    exact ⟨set.container, rfl, mem_paired_iff.2 ⟨c, found_eq_ok_iff.1 hc⟩⟩

end Mapping

namespace Schema

/-- The id is the next free place among its siblings. -/
def NextPlace (s : Schema) : Issued → Prop
  | .nothing => True
  | .model id => id.index = s.conceptual.models.length
  | .field id => ∃ m, s.conceptual.model id.model = .ok m ∧ id.index = m.fields.length
  | .association id => id.index = s.conceptual.associations.length
  | .container id => id.index = s.conceptual.containers.length
  | .entitySet id =>
    ∃ c, s.conceptual.container id.container = .ok c ∧ id.index = c.entitySets.length
  | .associationSet id =>
    ∃ c, s.conceptual.container id.container = .ok c ∧ id.index = c.associationSets.length
  | .store id => id.index = s.store.containers.length
  | .table id => id.index = s.store.tables.length
  | .column id => ∃ t, s.store.table id.table = .ok t ∧ id.index = t.columns.length

/-- Something is found under the id. -/
def Has (s : Schema) : Issued → Prop
  | .nothing => False
  | .model id => ∃ m, s.conceptual.model id = .ok m
  | .field id => ∃ f, s.conceptual.field id = .ok f
  | .association id => ∃ a, s.conceptual.association id = .ok a
  | .container id => ∃ c, s.conceptual.container id = .ok c
  | .entitySet id => ∃ set, s.conceptual.entitySet id = .ok set
  | .associationSet id => ∃ set, s.conceptual.associationSet id = .ok set
  | .store id => ∃ c, s.store.container id = .ok c
  | .table id => ∃ t, s.store.table id = .ok t
  | .column id => ∃ c, s.store.column id = .ok c

/-- What a declaration says is there, under the id that it issued. -/
inductive Shows (s : Schema) : Declaration → Issued → Prop
  | entity {id : ModelId} {m : Model} {e : EntityType} (hm : s.conceptual.model id = .ok m)
    (he : m.entity? = some e) (hbase : e.base = none) : Shows s (.entity m.name) (.model id)
  | derivedEntity {id base : ModelId} {m : Model} {e : EntityType}
    (hm : s.conceptual.model id = .ok m) (he : m.entity? = some e) (hbase : e.base = some base) :
    Shows s (.derivedEntity m.name base) (.model id)
  | embedded {id : ModelId} {m : Model} (hm : s.conceptual.model id = .ok m)
    (hkind : m.kind = .embedded) : Shows s (.embedded m.name) (.model id)
  | markAbstract {id : ModelId} {e : EntityType} (he : s.conceptual.entityType id = .ok e)
    (habstract : e.isAbstract) : Shows s (.markAbstract id) .nothing
  | field {role : FieldRole} {model : ModelId} {index : Nat} {name : String} {type : ScalarType}
    (hf : s.conceptual.field ⟨model, index⟩ =
      .ok ⟨name, .scalar type, role = .nullable, role = .token⟩)
    (hkey : role = .key → ∃ e, s.conceptual.entityType model = .ok e ∧ ⟨model, index⟩ ∈ e.key) :
    Shows s (.field role model name type) (.field ⟨model, index⟩)
  | embeddedField {model target : ModelId} {index : Nat} {name : String}
    (hf : s.conceptual.field ⟨model, index⟩ = .ok ⟨name, .embedded target, false, false⟩) :
    Shows s (.embeddedField model name target) (.field ⟨model, index⟩)
  | navigation {model : ModelId} {index near : Nat} {name : String} {association : AssociationId}
    (hf : s.conceptual.field ⟨model, index⟩ =
      .ok ⟨name, .navigation association near (1 - near), false, false⟩) :
    Shows s (.navigation model name association near) (.field ⟨model, index⟩)
  | association {id : AssociationId} {a : Association} {first second : ModelId × Multiplicity}
    (ha : s.conceptual.association id = .ok a) (hends : s.namedEnds first second = .ok a.ends) :
    Shows s (.association a.name first second) (.association id)
  | foreignKey {id : AssociationId} {a : Association} {principal : Nat}
    {fields : List ForeignKeyField} (ha : s.conceptual.association id = .ok a)
    (hforeign : a.isForeignKey)
    (hmem : ⟨principal, if principal = 0 then 1 else 0, fields⟩ ∈ a.constraints) :
    Shows s (.foreignKey id principal fields) .nothing
  | markAssociationAbstract {id : AssociationId} {a : Association}
    (ha : s.conceptual.association id = .ok a) (habstract : a.isAbstract) :
    Shows s (.markAssociationAbstract id) .nothing
  | container {id : ContainerId} {c : Container} (hc : s.conceptual.container id = .ok c) :
    Shows s (.container c.name) (.container id)
  | entitySet {container : ContainerId} {index : Nat} {e : EntitySet}
    (he : s.conceptual.entitySet ⟨container, index⟩ = .ok e) :
    Shows s (.entitySet container e.name e.model) (.entitySet ⟨container, index⟩)
  | associationSet {container : ContainerId} {index : Nat} {a : AssociationSet}
    (ha : s.conceptual.associationSet ⟨container, index⟩ = .ok a) :
    Shows s (.associationSet container a.name a.association a.ends)
      (.associationSet ⟨container, index⟩)
  | storeContainer {id : StoreId} {c : StoreContainer} (hc : s.store.container id = .ok c) :
    Shows s (.storeContainer c.name) (.store id)
  | table {id : TableId} {t : Table} {c : StoreContainer} (ht : s.store.table id = .ok t)
    (hc : s.store.container t.container = .ok c) (hmem : id ∈ c.tables) :
    Shows s (.table t.container t.name) (.table id)
  | column {role : ColumnRole} {table : TableId} {index : Nat} {name : String} {type : ScalarType}
    (hc : s.store.column ⟨table, index⟩ = .ok ⟨name, type, role = .nullable, role = .key⟩)
    (hkey : role = .key → ∃ t, s.store.table table = .ok t ∧ ⟨table, index⟩ ∈ t.key) :
    Shows s (.column role table name type) (.column ⟨table, index⟩)
  | mapContainers {id : ContainerId} (h : id ∈ s.mapping.paired) (store : StoreId) :
    Shows s (.mapContainers id store) .nothing
  | mapExtent {e : Extent} {id : ContainerId} (he : e.container? = some id)
    (h : id ∈ s.mapping.paired) (edit : MappingEdit) : Shows s (.mapExtent e edit) .nothing

variable {s s' : Schema} {d : Declaration} {i : Issued}

/-! ## What stays -/

/-- The roles of ends are the names of their types, which stay. -/
theorem Grows.namedEnds (h : s.Grows s') {first second : ModelId × Multiplicity}
    {ends : Ends AssociationEnd} (hends : s.namedEnds first second = .ok ends) :
    s'.namedEnds first second = .ok ends := by
  obtain ⟨m₁, h₁, hends⟩ := bind_eq_ok_iff.1 hends
  obtain ⟨m₂, h₂, hends⟩ := bind_eq_ok_iff.1 hends
  obtain ⟨m₁', h₁', hgrows₁⟩ := h.conceptual.model h₁
  obtain ⟨m₂', h₂', hgrows₂⟩ := h.conceptual.model h₂
  refine bind_eq_ok_iff.2 ⟨m₁', h₁', bind_eq_ok_iff.2 ⟨m₂', h₂', ?_⟩⟩
  rw [hgrows₁.name, hgrows₂.name]
  exact hends

/-- What was issued is there from then on. -/
theorem Has.grows (hi : s.Has i) (h : s.Grows s') : s'.Has i := by
  cases i with
  | nothing => exact hi
  | model id =>
    obtain ⟨m, hm⟩ := hi
    obtain ⟨m', hm', -⟩ := h.conceptual.model hm
    exact ⟨m', hm'⟩
  | field id =>
    obtain ⟨f, hf⟩ := hi
    exact ⟨f, h.conceptual.field hf⟩
  | association id =>
    obtain ⟨a, ha⟩ := hi
    obtain ⟨a', ha', -⟩ := h.conceptual.association ha
    exact ⟨a', ha'⟩
  | container id =>
    obtain ⟨c, hc⟩ := hi
    obtain ⟨c', hc', -⟩ := h.conceptual.container hc
    exact ⟨c', hc'⟩
  | entitySet id =>
    obtain ⟨set, hset⟩ := hi
    exact ⟨set, h.conceptual.entitySet hset⟩
  | associationSet id =>
    obtain ⟨set, hset⟩ := hi
    exact ⟨set, h.conceptual.associationSet hset⟩
  | store id =>
    obtain ⟨c, hc⟩ := hi
    obtain ⟨c', hc', -⟩ := h.store.container hc
    exact ⟨c', hc'⟩
  | table id =>
    obtain ⟨t, ht⟩ := hi
    obtain ⟨t', ht', -⟩ := h.store.table ht
    exact ⟨t', ht'⟩
  | column id =>
    obtain ⟨c, hc⟩ := hi
    exact ⟨c, h.store.column hc⟩

/-- What a declaration says is there from then on. -/
theorem Shows.grows (hd : s.Shows d i) (h : s.Grows s') : s'.Shows d i := by
  cases hd with
  | entity hm he hbase =>
    obtain ⟨m', hm', hgrows⟩ := h.conceptual.model hm
    obtain ⟨e', he', hentity⟩ := hgrows.entity? he
    exact hgrows.name ▸ .entity hm' he' (hentity.base.trans hbase)
  | derivedEntity hm he hbase =>
    obtain ⟨m', hm', hgrows⟩ := h.conceptual.model hm
    obtain ⟨e', he', hentity⟩ := hgrows.entity? he
    exact hgrows.name ▸ .derivedEntity hm' he' (hentity.base.trans hbase)
  | embedded hm hkind =>
    obtain ⟨m', hm', hgrows⟩ := h.conceptual.model hm
    exact hgrows.name ▸ .embedded hm' (hgrows.embedded hkind)
  | markAbstract he habstract =>
    obtain ⟨e', he', hentity⟩ := h.conceptual.entityType he
    exact .markAbstract he' (hentity.isAbstract habstract)
  -- that a field is in the key is said of the type as it is by now
  | field hf hkey =>
    refine .field (h.conceptual.field hf) fun hrole => ?_
    obtain ⟨e, he, hmem⟩ := hkey hrole
    obtain ⟨e', he', hentity⟩ := h.conceptual.entityType he
    exact ⟨e', he', hentity.key.subset hmem⟩
  | embeddedField hf => exact .embeddedField (h.conceptual.field hf)
  | navigation hf => exact .navigation (h.conceptual.field hf)
  | association ha hends =>
    obtain ⟨a', ha', hgrows⟩ := h.conceptual.association ha
    exact hgrows.name ▸ .association ha' (hgrows.ends ▸ h.namedEnds hends)
  | foreignKey ha hforeign hmem =>
    obtain ⟨a', ha', hgrows⟩ := h.conceptual.association ha
    exact .foreignKey ha' (hgrows.isForeignKey hforeign) (hgrows.constraints.subset hmem)
  | markAssociationAbstract ha habstract =>
    obtain ⟨a', ha', hgrows⟩ := h.conceptual.association ha
    exact .markAssociationAbstract ha' (hgrows.isAbstract habstract)
  | container hc =>
    obtain ⟨c', hc', hgrows⟩ := h.conceptual.container hc
    exact hgrows.name ▸ .container hc'
  | entitySet he => exact .entitySet (h.conceptual.entitySet he)
  | associationSet ha => exact .associationSet (h.conceptual.associationSet ha)
  | storeContainer hc =>
    obtain ⟨c', hc', hgrows⟩ := h.store.container hc
    exact hgrows.name ▸ .storeContainer hc'
  | table ht hc hmem =>
    obtain ⟨t', ht', htable⟩ := h.store.table ht
    obtain ⟨c', hc', howner⟩ := h.store.container hc
    rw [← htable.name, ← htable.container]
    exact .table ht' (htable.container ▸ hc') (howner.tables.subset hmem)
  | column hc hkey =>
    refine .column (h.store.column hc) fun hrole => ?_
    obtain ⟨t, ht, hmem⟩ := hkey hrole
    obtain ⟨t', ht', hgrows⟩ := h.store.table ht
    exact ⟨t', ht', hgrows.key.subset hmem⟩
  | mapContainers hid store => exact .mapContainers (h.paired.subset hid) store
  | mapExtent he hid edit => exact .mapExtent he (h.paired.subset hid) edit

/-! ## What a declaration shows at once -/

/-- A free place has nothing in it. -/
theorem NextPlace.not_has (h : s.NextPlace i) : ¬ s.Has i := by
  have hfree {α : Type} {l : List α} {index : Nat} (hindex : index = l.length) (f : Fault) :
      ¬ ∃ a, found l[index]? f = .ok a := by
    rw [exists_found_iff, hindex]
    exact Nat.lt_irrefl _
  -- an element inside another is looked up in that, so its siblings are the same
  cases i with
  | nothing => exact id
  | model | association | container | store | table => exact hfree h _
  | field id =>
    obtain ⟨m, hm, hindex⟩ := h
    rintro ⟨f, hf⟩
    obtain ⟨m', hm', hf⟩ := bind_eq_ok_iff.1 hf
    cases hm.symm.trans hm'
    exact hfree hindex _ ⟨f, hf⟩
  | entitySet id | associationSet id =>
    obtain ⟨c, hc, hindex⟩ := h
    rintro ⟨set, hset⟩
    obtain ⟨c', hc', hset⟩ := bind_eq_ok_iff.1 hset
    cases hc.symm.trans hc'
    exact hfree hindex _ ⟨set, hset⟩
  | column id =>
    obtain ⟨t, ht, hindex⟩ := h
    rintro ⟨c, hc⟩
    obtain ⟨t', ht', hc⟩ := bind_eq_ok_iff.1 hc
    cases ht.symm.trans ht'
    exact hfree hindex _ ⟨c, hc⟩

/-- Something is found under every id that was issued. -/
theorem Shows.has (h : s.Shows d i) (hi : i ≠ .nothing) : s.Has i := by
  cases h with
  | markAbstract | foreignKey | markAssociationAbstract | mapContainers | mapExtent =>
    exact absurd rfl hi
  | entity hm | derivedEntity hm | embedded hm => exact ⟨_, hm⟩
  | field hf | embeddedField hf | navigation hf => exact ⟨_, hf⟩
  | association ha | associationSet ha => exact ⟨_, ha⟩
  | container hc | storeContainer hc => exact ⟨_, hc⟩
  | entitySet he => exact ⟨_, he⟩
  | table ht => exact ⟨_, ht⟩
  | column hc => exact ⟨_, hc⟩

/-- What is declared on the conceptual side is there at once, at the place that was free. -/
theorem shows_extends {c : Conceptual} (h : s.conceptual.Extends d c i) :
    s.NextPlace i ∧ { s with conceptual := c }.Shows d i := by
  cases h with
  | entity name =>
    exact ⟨rfl, .entity (m := ⟨name, [], _⟩) (found_append_self _ _ _) rfl rfl⟩
  | derivedEntity name base =>
    exact ⟨rfl, .derivedEntity (m := ⟨name, [], _⟩) (found_append_self _ _ _) rfl rfl⟩
  | embedded name =>
    exact ⟨rfl, .embedded (m := ⟨name, [], _⟩) (found_append_self _ _ _) rfl⟩
  | markAbstract hm =>
    exact ⟨trivial, .markAbstract (bind_eq_ok_iff.2 ⟨_, found_set_self hm _, rfl⟩) rfl⟩
  -- a field that is not a key field has nothing to show in the key
  | field hm hrole =>
    exact ⟨⟨_, hm, rfl⟩, .field (Conceptual.field_setModel hm rfl) fun hkey =>
      absurd hkey hrole⟩
  | keyField hm =>
    refine ⟨⟨_, hm, rfl⟩, .field (Conceptual.field_setModel hm rfl) fun _ => ?_⟩
    exact ⟨_, bind_eq_ok_iff.2 ⟨_, found_set_self hm _, rfl⟩,
      List.mem_append_right _ List.mem_cons_self⟩
  | embeddedField hm =>
    exact ⟨⟨_, hm, rfl⟩, .embeddedField (Conceptual.field_setModel hm rfl)⟩
  | navigation hm => exact ⟨⟨_, hm, rfl⟩, .navigation (Conceptual.field_setModel hm rfl)⟩
  | @association first second m₁ m₂ h₁ h₂ name =>
    refine ⟨rfl, .association (a := ⟨name, _, [], false, false⟩) (found_append_self _ _ _) ?_⟩
    exact bind_eq_ok_iff.2 ⟨m₁, h₁, bind_eq_ok_iff.2 ⟨m₂, h₂, rfl⟩⟩
  | foreignKey ha =>
    exact ⟨trivial, .foreignKey (found_set_self ha _) rfl
      (List.mem_append_right _ List.mem_cons_self)⟩
  | markAssociationAbstract ha =>
    exact ⟨trivial, .markAssociationAbstract (found_set_self ha _) rfl⟩
  | container name =>
    exact ⟨rfl, .container (c := ⟨name, [], []⟩) (found_append_self _ _ _)⟩
  | entitySet ho name model =>
    refine ⟨⟨_, ho, rfl⟩, .entitySet (e := ⟨name, model⟩) ?_⟩
    exact bind_eq_ok_iff.2 ⟨_, found_set_self ho _, found_append_self _ _ _⟩
  | associationSet ho name association ends =>
    refine ⟨⟨_, ho, rfl⟩, .associationSet (a := ⟨name, association, ends⟩) ?_⟩
    exact bind_eq_ok_iff.2 ⟨_, found_set_self ho _, found_append_self _ _ _⟩

/-- So is what is declared on the store side. -/
theorem shows_extends_store {st : Store} (h : s.store.Extends d st i) :
    s.NextPlace i ∧ { s with store := st }.Shows d i := by
  cases h with
  | container name =>
    exact ⟨rfl, .storeContainer (c := ⟨name, []⟩) (found_append_self _ _ _)⟩
  | @table id owner ho name =>
    exact ⟨rfl, .table (t := ⟨id, name, [], []⟩) (found_append_self _ _ _) (found_set_self ho _)
      (List.mem_append_right _ List.mem_cons_self)⟩
  | column ht role name type =>
    refine ⟨⟨_, ht, rfl⟩, .column ?_ fun hrole => ⟨_, found_set_self ht _, ?_⟩⟩
    · exact bind_eq_ok_iff.2 ⟨_, found_set_self ht _, found_append_self _ _ _⟩
    · simp [Table.grown, hrole]

/-- What was declared is there at once, at the place that was free. -/
theorem shows_declare (h : s.declare d = .ok (s', i)) : s.NextPlace i ∧ s'.Shows d i := by
  cases change_of_declare h with
  | conceptual hext => exact shows_extends hext
  | store hext => exact shows_extends_store hext
  | pair id store =>
    exact ⟨trivial, .mapContainers (s.mapping.mem_paired_pair id store) store⟩
  | edit hedit =>
    obtain ⟨id, he, hid⟩ := Mapping.exists_mem_paired_of_edit hedit
    exact ⟨trivial, .mapExtent he (Mapping.paired_edit hedit ▸ hid) _⟩

/-! ## Any number of declarations -/

/-- What was issued was free before, and is taken afterwards. -/
theorem has_of_mem_ids {declarations : List Declaration} {start : Nat} {ids : List Issued}
    (h : s.declareFrom start declarations = .ok (s', ids)) (hi : i ∈ ids) (hid : i ≠ .nothing) :
    ¬ s.Has i ∧ s'.Has i := by
  induction declarations generalizing start s ids with
  | nil =>
    cases h
    cases hi
  | cons d rest ih =>
    obtain ⟨s₁, j, ids₁, hd, hrest, rfl⟩ := declareFrom_cons_eq_ok_iff.1 h
    rcases List.mem_cons.1 hi with rfl | hi
    · obtain ⟨hplace, hshows⟩ := shows_declare hd
      exact ⟨hplace.not_has, (hshows.has hid).grows (grows_declareFrom hrest)⟩
    · obtain ⟨hfree, hhas⟩ := ih hrest hi
      -- nothing that is free after the first declaration was taken before it
      exact ⟨fun hs => hfree (hs.grows (grows_declare hd)), hhas⟩

/-- **Declarations only append.** Among declarations without a fault, take any one. The id that it
issued is the place that was free among the siblings of what it declared, and no other declaration
issued the same id. Whatever came later, what was declared is found there, with its name, its owner
and its type, and all that there was when it had been declared has at most grown. What is built from
the declarations is the schema that they gave. -/
theorem declared_stays {before after : List Declaration} {ids : List Issued}
    (h : empty.declareFrom 0 (before ++ d :: after) = .ok (s, ids)) :
    ∃ s₀ s₁ i ids₀ ids₁, empty.declareFrom 0 before = .ok (s₀, ids₀) ∧
      s₀.declare d = .ok (s₁, i) ∧ ids = ids₀ ++ i :: ids₁ ∧ s₀.NextPlace i ∧
      (i ≠ .nothing → i ∉ ids₀ ∧ i ∉ ids₁) ∧ s₁.Shows d i ∧ s.Shows d i ∧
      s₀.Grows s₁ ∧ s₁.Grows s ∧
      ∀ built ids', Schema.build (before ++ d :: after) = .ok (built, ids') →
        built = s ∧ ids' = ids := by
  obtain ⟨s₀, ids₀, ids', hbefore, hrest, rfl⟩ := declareFrom_append_eq_ok_iff.1 h
  obtain ⟨s₁, i, ids₁, hd, hafter, rfl⟩ := declareFrom_cons_eq_ok_iff.1 hrest
  obtain ⟨hplace, hshows⟩ := shows_declare hd
  have hgrows : s₁.Grows s := grows_declareFrom hafter
  refine ⟨s₀, s₁, i, ids₀, ids₁, hbefore, hd, rfl, hplace, fun hi => ⟨?_, ?_⟩, hshows,
    hshows.grows hgrows, grows_declare hd, hgrows, fun built ids' hbuild => ?_⟩
  · exact fun hmem => hplace.not_has (has_of_mem_ids hbefore hmem hi).2
  · exact fun hmem => (has_of_mem_ids hafter hmem hi).1 (hshows.has hi)
  · cases (build_eq_ok_iff.1 hbuild).1.symm.trans h
    exact ⟨rfl, rfl⟩

end Schema

/-! ## A register -/

namespace Register

/-- A type and its table, before the type has any fields. -/
def before : List Declaration := [
  .entity "Person", .storeContainer "db", .table ⟨0⟩ "People", .column .key ⟨0⟩ "Number" .int32]

/-- Later on the type becomes abstract, it gets a second key field, and a type derives from it. -/
def after : List Declaration := [
  .markAbstract ⟨0⟩, .derivedEntity "Friend" ⟨0⟩, .field .key ⟨0⟩ "Country" .text,
  .association "Knows" (⟨0⟩, .many) (⟨0⟩, .many), .field .plain ⟨1⟩ "Since" .int32]

/-- The number is still the first field of a person and in its key, and nothing else is called by
its id. -/
theorem number_stays : ∃ s ids ids₀ ids₁,
    Schema.build (before ++ .field .key ⟨0⟩ "Number" .int32 :: after) = .ok (s, ids) ∧
    s.Shows (.field .key ⟨0⟩ "Number" .int32) (.field ⟨⟨0⟩, 0⟩) ∧
    ids = ids₀ ++ .field ⟨⟨0⟩, 0⟩ :: ids₁ ∧ .field ⟨⟨0⟩, 0⟩ ∉ ids₀ ∧ .field ⟨⟨0⟩, 0⟩ ∉ ids₁ := by
  obtain ⟨s, ids, hbuild⟩ : ∃ s ids, Schema.build
      (before ++ .field .key ⟨0⟩ "Number" .int32 :: after) = .ok (s, ids) := ⟨_, _, rfl⟩
  obtain ⟨s₀, s₁, i, ids₀, ids₁, hbefore, hd, hids, -, hnew, -, hshows, -⟩ :=
    Schema.declared_stays (Schema.build_eq_ok_iff.1 hbuild).1
  cases hbefore
  cases hd
  exact ⟨s, ids, _, ids₁, hbuild, hshows, hids, hnew nofun⟩

end Register

end QueryViews
