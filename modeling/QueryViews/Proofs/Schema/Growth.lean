import QueryViews.Proofs.Schema.Changes

/-!
# How schemas grow

Declarations append: what is there stays at its place, and new things come behind it. All that a
later declaration can do to what is there is to mark it as abstract, to add to its key or to its
constraints, to encode it by a foreign key, and to add to what it owns. `Schema.Grows` says so of
the whole schema, one relation for each kind of thing, and every declaration keeps to it
(`Schema.grows_declare`).
-/

namespace QueryViews

/-! ## Lists that grow -/

section Lists

variable {α : Type} {R : α → α → Prop} {l l' l'' : List α}

/-- Every element is still at its place, and only `R` has happened to it. -/
def Grown (R : α → α → Prop) (l l' : List α) : Prop :=
  ∀ (i : Nat) (a : α), l[i]? = some a → ∃ a', l'[i]? = some a' ∧ R a a'

theorem Grown.refl (hR : ∀ a, R a a) : Grown R l l := fun _ a ha => ⟨a, ha, hR a⟩

/-- What has happened twice has happened. -/
theorem Grown.trans (hR : ∀ a b c, R a b → R b c → R a c) (h : Grown R l l')
    (h' : Grown R l' l'') : Grown R l l'' := by
  intro i a ha
  obtain ⟨b, hb, hab⟩ := h i a ha
  obtain ⟨c, hc, hbc⟩ := h' i b hb
  exact ⟨c, hc, hR a b c hab hbc⟩

/-- What is appended moves nothing. -/
theorem getElem?_of_isPrefix (h : l <+: l') {i : Nat} {a : α} (ha : l[i]? = some a) :
    l'[i]? = some a := by
  obtain ⟨added, rfl⟩ := h
  rwa [List.getElem?_append_left (List.getElem?_eq_some_iff.1 ha).1]

/-- Nothing has happened to what others were appended to. -/
theorem Grown.of_isPrefix (hR : ∀ a, R a a) (h : l <+: l') : Grown R l l' :=
  fun _ a ha => ⟨a, getElem?_of_isPrefix h ha, hR a⟩

/-- Something may have happened to one element only. -/
theorem Grown.set (hR : ∀ a, R a a) {i : Nat} {a a' : α} (ha : l[i]? = some a) (h : R a a') :
    Grown R l (l.set i a') := by
  intro j b hb
  by_cases hij : i = j
  · subst hij
    obtain rfl := Option.some.inj (ha.symm.trans hb)
    exact ⟨a', List.getElem?_set_self (List.getElem?_eq_some_iff.1 ha).1, h⟩
  · exact ⟨b, (List.getElem?_set_ne hij).trans hb, hR b⟩

/-- A look-up that succeeded still does. -/
theorem Grown.exists_found (h : Grown R l l') {i : Nat} {f : Fault} {a : α}
    (ha : found l[i]? f = .ok a) : ∃ a', found l'[i]? f = .ok a' ∧ R a a' := by
  obtain ⟨a', ha', hR⟩ := h i a (found_eq_ok_iff.1 ha)
  exact ⟨a', found_eq_ok_iff.2 ha', hR⟩

/-- What was found is found behind what is appended. -/
theorem found_of_isPrefix (h : l <+: l') {i : Nat} {f : Fault} {a : α}
    (ha : found l[i]? f = .ok a) : found l'[i]? f = .ok a :=
  found_eq_ok_iff.2 (getElem?_of_isPrefix h (found_eq_ok_iff.1 ha))

end Lists

/-! ## Types -/

/-- The base of an entity type is settled when it is declared, its key is not. -/
structure EntityType.Grows (e e' : EntityType) : Prop where
  base : e'.base = e.base
  isAbstract : e.isAbstract → e'.isAbstract
  key : e.key <+: e'.key

/-- An entity type stays one, and an embedded type never changes. -/
inductive ModelKind.Grows : ModelKind → ModelKind → Prop
  | entity {e e' : EntityType} (h : e.Grows e') : Grows (.entity e) (.entity e')
  | embedded : Grows .embedded .embedded

/-- A type gets fields behind those it has, and its kind grows. -/
structure Model.Grows (m m' : Model) : Prop where
  name : m'.name = m.name
  fields : m.fields <+: m'.fields
  kind : m.kind.Grows m'.kind

theorem EntityType.Grows.refl (e : EntityType) : e.Grows e := ⟨rfl, fun h => h, List.prefix_rfl⟩

theorem EntityType.Grows.trans {e e' e'' : EntityType} (h : e.Grows e') (h' : e'.Grows e'') :
    e.Grows e'' where
  base := h'.base.trans h.base
  isAbstract he := h'.isAbstract (h.isAbstract he)
  key := h.key.trans h'.key

theorem ModelKind.Grows.refl : ∀ k : ModelKind, k.Grows k
  | .entity e => .entity (.refl e)
  | .embedded => .embedded

/-- Between two kinds of one sort there is no other sort. -/
theorem ModelKind.Grows.trans {k k' k'' : ModelKind} (h : k.Grows k') (h' : k'.Grows k'') :
    k.Grows k'' := by
  cases h with
  | entity h =>
    cases h' with
    | entity h' => exact .entity (h.trans h')
  | embedded => exact h'

theorem Model.Grows.refl (m : Model) : m.Grows m := ⟨rfl, List.prefix_rfl, .refl _⟩

theorem Model.Grows.trans (m m' m'' : Model) (h : m.Grows m') (h' : m'.Grows m'') :
    m.Grows m'' where
  name := h'.name.trans h.name
  fields := h.fields.trans h'.fields
  kind := h.kind.trans h'.kind

/-- What makes a model an entity type is its kind. -/
theorem Model.entity?_eq_some_iff {m : Model} {e : EntityType} :
    m.entity? = some e ↔ m.kind = .entity e := by
  unfold Model.entity?
  cases m.kind with
  | entity e' => exact ⟨fun h => congrArg _ (Option.some.inj h), fun h => by cases h; rfl⟩
  | embedded => exact ⟨nofun, nofun⟩

/-- What was an entity type still is one. -/
theorem Model.Grows.entity? {m m' : Model} (h : m.Grows m') {e : EntityType}
    (he : m.entity? = some e) : ∃ e', m'.entity? = some e' ∧ e.Grows e' := by
  have hkind := h.kind
  rw [Model.entity?_eq_some_iff.1 he] at hkind
  generalize hk : m'.kind = kind at hkind
  cases hkind with
  | entity hgrows => exact ⟨_, Model.entity?_eq_some_iff.2 hk, hgrows⟩

/-- An embedded type stays one. -/
theorem Model.Grows.embedded {m m' : Model} (h : m.Grows m') (hm : m.kind = .embedded) :
    m'.kind = .embedded := by
  have hkind := h.kind
  rw [hm] at hkind
  generalize m'.kind = kind at hkind ⊢
  cases hkind with
  | embedded => rfl

/-! ## Relationships, containers and tables -/

/-- The ends of an association are settled when it is declared; constraints are added, and what it
is marked as stays. -/
structure Association.Grows (a a' : Association) : Prop where
  name : a'.name = a.name
  ends : a'.ends = a.ends
  constraints : a.constraints <+: a'.constraints
  isForeignKey : a.isForeignKey → a'.isForeignKey
  isAbstract : a.isAbstract → a'.isAbstract

/-- A container gets sets behind those it has. -/
structure Container.Grows (c c' : Container) : Prop where
  name : c'.name = c.name
  entitySets : c.entitySets <+: c'.entitySets
  associationSets : c.associationSets <+: c'.associationSets

/-- A store container gets tables behind those it has. -/
structure StoreContainer.Grows (c c' : StoreContainer) : Prop where
  name : c'.name = c.name
  tables : c.tables <+: c'.tables

/-- A table stays where it is, and gets columns and key columns behind those it has. -/
structure Table.Grows (t t' : Table) : Prop where
  container : t'.container = t.container
  name : t'.name = t.name
  columns : t.columns <+: t'.columns
  key : t.key <+: t'.key

theorem Association.Grows.refl (a : Association) : a.Grows a :=
  ⟨rfl, rfl, List.prefix_rfl, fun h => h, fun h => h⟩

theorem Association.Grows.trans (a a' a'' : Association) (h : a.Grows a') (h' : a'.Grows a'') :
    a.Grows a'' where
  name := h'.name.trans h.name
  ends := h'.ends.trans h.ends
  constraints := h.constraints.trans h'.constraints
  isForeignKey ha := h'.isForeignKey (h.isForeignKey ha)
  isAbstract ha := h'.isAbstract (h.isAbstract ha)

theorem Container.Grows.refl (c : Container) : c.Grows c :=
  ⟨rfl, List.prefix_rfl, List.prefix_rfl⟩

theorem Container.Grows.trans (c c' c'' : Container) (h : c.Grows c') (h' : c'.Grows c'') :
    c.Grows c'' where
  name := h'.name.trans h.name
  entitySets := h.entitySets.trans h'.entitySets
  associationSets := h.associationSets.trans h'.associationSets

theorem StoreContainer.Grows.refl (c : StoreContainer) : c.Grows c := ⟨rfl, List.prefix_rfl⟩

theorem StoreContainer.Grows.trans (c c' c'' : StoreContainer) (h : c.Grows c')
    (h' : c'.Grows c'') : c.Grows c'' where
  name := h'.name.trans h.name
  tables := h.tables.trans h'.tables

theorem Table.Grows.refl (t : Table) : t.Grows t := ⟨rfl, rfl, List.prefix_rfl, List.prefix_rfl⟩

theorem Table.Grows.trans (t t' t'' : Table) (h : t.Grows t') (h' : t'.Grows t'') :
    t.Grows t'' where
  container := h'.container.trans h.container
  name := h'.name.trans h.name
  columns := h.columns.trans h'.columns
  key := h.key.trans h'.key

/-! ## The three sides -/

/-- Nothing on the conceptual side is taken away or moved. -/
structure Conceptual.Grows (c c' : Conceptual) : Prop where
  models : Grown Model.Grows c.models c'.models
  associations : Grown Association.Grows c.associations c'.associations
  containers : Grown Container.Grows c.containers c'.containers

/-- Nothing on the store side is taken away or moved. -/
structure Store.Grows (st st' : Store) : Prop where
  containers : Grown StoreContainer.Grows st.containers st'.containers
  tables : Grown Table.Grows st.tables st'.tables

/-- Of the mapping, only the order of the paired containers stays: a container may be paired anew,
and its mapping may be edited. -/
structure Schema.Grows (s s' : Schema) : Prop where
  conceptual : s.conceptual.Grows s'.conceptual
  store : s.store.Grows s'.store
  paired : s.mapping.paired <+: s'.mapping.paired

theorem Conceptual.Grows.refl (c : Conceptual) : c.Grows c :=
  ⟨.refl Model.Grows.refl, .refl Association.Grows.refl, .refl Container.Grows.refl⟩

theorem Conceptual.Grows.trans {c c' c'' : Conceptual} (h : c.Grows c') (h' : c'.Grows c'') :
    c.Grows c'' where
  models := h.models.trans Model.Grows.trans h'.models
  associations := h.associations.trans Association.Grows.trans h'.associations
  containers := h.containers.trans Container.Grows.trans h'.containers

theorem Store.Grows.refl (st : Store) : st.Grows st :=
  ⟨.refl StoreContainer.Grows.refl, .refl Table.Grows.refl⟩

theorem Store.Grows.trans {st st' st'' : Store} (h : st.Grows st') (h' : st'.Grows st'') :
    st.Grows st'' where
  containers := h.containers.trans StoreContainer.Grows.trans h'.containers
  tables := h.tables.trans Table.Grows.trans h'.tables

theorem Schema.Grows.refl (s : Schema) : s.Grows s := ⟨.refl _, .refl _, List.prefix_rfl⟩

theorem Schema.Grows.trans {s s' s'' : Schema} (h : s.Grows s') (h' : s'.Grows s'') :
    s.Grows s'' where
  conceptual := h.conceptual.trans h'.conceptual
  store := h.store.trans h'.store
  paired := h.paired.trans h'.paired

/-! ## Look-ups -/

section LookUps

variable {c c' : Conceptual} {st st' : Store}

/-- A type is still there, grown. -/
theorem Conceptual.Grows.model (h : c.Grows c') {id : ModelId} {m : Model}
    (hm : c.model id = .ok m) : ∃ m', c'.model id = .ok m' ∧ m.Grows m' :=
  h.models.exists_found hm

/-- A field is still there as it was. -/
theorem Conceptual.Grows.field (h : c.Grows c') {id : FieldId} {f : Field}
    (hf : c.field id = .ok f) : c'.field id = .ok f := by
  obtain ⟨m, hm, hf⟩ := bind_eq_ok_iff.1 hf
  obtain ⟨m', hm', hgrows⟩ := h.model hm
  exact bind_eq_ok_iff.2 ⟨m', hm', found_of_isPrefix hgrows.fields hf⟩

theorem Conceptual.Grows.entityType (h : c.Grows c') {id : ModelId} {e : EntityType}
    (he : c.entityType id = .ok e) : ∃ e', c'.entityType id = .ok e' ∧ e.Grows e' := by
  obtain ⟨m, hm, he⟩ := bind_eq_ok_iff.1 he
  obtain ⟨m', hm', hgrows⟩ := h.model hm
  obtain ⟨e', he', hgrows⟩ := hgrows.entity? (found_eq_ok_iff.1 he)
  exact ⟨e', bind_eq_ok_iff.2 ⟨m', hm', found_eq_ok_iff.2 he'⟩, hgrows⟩

theorem Conceptual.Grows.association (h : c.Grows c') {id : AssociationId} {a : Association}
    (ha : c.association id = .ok a) : ∃ a', c'.association id = .ok a' ∧ a.Grows a' :=
  h.associations.exists_found ha

theorem Conceptual.Grows.container (h : c.Grows c') {id : ContainerId} {owner : Container}
    (ho : c.container id = .ok owner) :
    ∃ owner', c'.container id = .ok owner' ∧ owner.Grows owner' :=
  h.containers.exists_found ho

/-- An entity set is still there as it was. -/
theorem Conceptual.Grows.entitySet (h : c.Grows c') {id : EntitySetId} {set : EntitySet}
    (hset : c.entitySet id = .ok set) : c'.entitySet id = .ok set := by
  obtain ⟨owner, ho, hset⟩ := bind_eq_ok_iff.1 hset
  obtain ⟨owner', ho', hgrows⟩ := h.container ho
  exact bind_eq_ok_iff.2 ⟨owner', ho', found_of_isPrefix hgrows.entitySets hset⟩

theorem Conceptual.Grows.associationSet (h : c.Grows c') {id : AssociationSetId}
    {set : AssociationSet} (hset : c.associationSet id = .ok set) :
    c'.associationSet id = .ok set := by
  obtain ⟨owner, ho, hset⟩ := bind_eq_ok_iff.1 hset
  obtain ⟨owner', ho', hgrows⟩ := h.container ho
  exact bind_eq_ok_iff.2 ⟨owner', ho', found_of_isPrefix hgrows.associationSets hset⟩

theorem Store.Grows.container (h : st.Grows st') {id : StoreId} {owner : StoreContainer}
    (ho : st.container id = .ok owner) :
    ∃ owner', st'.container id = .ok owner' ∧ owner.Grows owner' :=
  h.containers.exists_found ho

/-- A table is still there, grown. -/
theorem Store.Grows.table (h : st.Grows st') {id : TableId} {t : Table} (ht : st.table id = .ok t) :
    ∃ t', st'.table id = .ok t' ∧ t.Grows t' :=
  h.tables.exists_found ht

theorem Store.Grows.column (h : st.Grows st') {id : ColumnId} {col : Column}
    (hcol : st.column id = .ok col) : st'.column id = .ok col := by
  obtain ⟨t, ht, hcol⟩ := bind_eq_ok_iff.1 hcol
  obtain ⟨t', ht', hgrows⟩ := h.table ht
  exact bind_eq_ok_iff.2 ⟨t', ht', found_of_isPrefix hgrows.columns hcol⟩

end LookUps

/-! ## What a declaration does -/

section Declarations

variable {c c' : Conceptual} {st st' : Store} {d : Declaration} {i : Issued}

/-- A type may come behind the others. -/
theorem Conceptual.grows_append_model (c : Conceptual) (m : Model) :
    c.Grows { c with models := c.models ++ [m] } :=
  ⟨.of_isPrefix Model.Grows.refl (List.prefix_append _ _), .refl Association.Grows.refl,
    .refl Container.Grows.refl⟩

/-- A type may be replaced by what it has grown to, -/
theorem Conceptual.grows_setModel {id : ModelId} {m m' : Model} (hm : c.model id = .ok m)
    (h : m.Grows m') : c.Grows (c.setModel id m') :=
  ⟨.set Model.Grows.refl (found_eq_ok_iff.1 hm) h, .refl Association.Grows.refl,
    .refl Container.Grows.refl⟩

/-- and so may a relationship -/
theorem Conceptual.grows_setAssociation {id : AssociationId} {a a' : Association}
    (ha : c.association id = .ok a) (h : a.Grows a') : c.Grows (c.setAssociation id a') :=
  ⟨.refl Model.Grows.refl, .set Association.Grows.refl (found_eq_ok_iff.1 ha) h,
    .refl Container.Grows.refl⟩

/-- and a container. -/
theorem Conceptual.grows_setContainer {id : ContainerId} {owner owner' : Container}
    (ho : c.container id = .ok owner) (h : owner.Grows owner') :
    c.Grows (c.setContainer id owner') :=
  ⟨.refl Model.Grows.refl, .refl Association.Grows.refl,
    .set Container.Grows.refl (found_eq_ok_iff.1 ho) h⟩

/-- What a declaration makes of the conceptual side has grown from it. -/
theorem Conceptual.Extends.grows (h : c.Extends d c' i) : c.Grows c' := by
  cases h with
  | entity | derivedEntity | embedded => exact c.grows_append_model _
  | markAbstract hm he =>
    have hkind := Model.entity?_eq_some_iff.1 he
    exact grows_setModel hm
      ⟨rfl, List.prefix_rfl, hkind ▸ .entity ⟨rfl, fun _ => rfl, List.prefix_rfl⟩⟩
  | field hm | embeddedField hm | navigation hm =>
    exact grows_setModel hm ⟨rfl, List.prefix_append _ _, .refl _⟩
  | keyField hm he =>
    have hkind := Model.entity?_eq_some_iff.1 he
    exact grows_setModel hm ⟨rfl, List.prefix_append _ _,
      hkind ▸ .entity ⟨rfl, fun h => h, List.prefix_append _ _⟩⟩
  | association =>
    exact ⟨.refl Model.Grows.refl,
      .of_isPrefix Association.Grows.refl (List.prefix_append _ _), .refl Container.Grows.refl⟩
  | foreignKey ha =>
    exact grows_setAssociation ha
      ⟨rfl, rfl, List.prefix_append _ _, fun _ => rfl, fun h => h⟩
  | markAssociationAbstract ha =>
    exact grows_setAssociation ha ⟨rfl, rfl, List.prefix_rfl, fun h => h, fun _ => rfl⟩
  | container =>
    exact ⟨.refl Model.Grows.refl, .refl Association.Grows.refl,
      .of_isPrefix Container.Grows.refl (List.prefix_append _ _)⟩
  | entitySet ho =>
    exact grows_setContainer ho ⟨rfl, List.prefix_append _ _, List.prefix_rfl⟩
  | associationSet ho =>
    exact grows_setContainer ho ⟨rfl, List.prefix_rfl, List.prefix_append _ _⟩

/-- A table with one more column has grown. -/
theorem Table.grows_grown (t : Table) (id : TableId) (role : ColumnRole) (name : String)
    (type : ScalarType) : t.Grows (t.grown id role name type) where
  container := rfl
  name := rfl
  columns := List.prefix_append _ _
  key := by
    rw [Table.grown]
    dsimp only
    split
    · exact List.prefix_append _ _
    · exact List.prefix_rfl

/-- What a declaration makes of the store side has grown from it. -/
theorem Store.Extends.grows (h : st.Extends d st' i) : st.Grows st' := by
  cases h with
  | container =>
    exact ⟨.of_isPrefix StoreContainer.Grows.refl (List.prefix_append _ _),
      .refl Table.Grows.refl⟩
  | table ho =>
    exact ⟨.set StoreContainer.Grows.refl (found_eq_ok_iff.1 ho) ⟨rfl, List.prefix_append _ _⟩,
      .of_isPrefix Table.Grows.refl (List.prefix_append _ _)⟩
  | column ht role name type =>
    exact ⟨.refl StoreContainer.Grows.refl,
      .set Table.Grows.refl (found_eq_ok_iff.1 ht) (Table.grows_grown _ _ role name type)⟩

/-- A container that is paired anew keeps its place, and one that is new comes last. -/
theorem Mapping.paired_prefix_pair (m : Mapping) (id : ContainerId) (store : StoreId) :
    m.paired <+: (m.pair id store).paired := by
  rw [Mapping.paired_pair]
  split
  · exact List.prefix_rfl
  · exact List.prefix_append _ _

end Declarations

namespace Schema

variable {s s' : Schema}

/-- What is there stays where it is, whatever is declared. -/
theorem grows_declare {d : Declaration} {i : Issued} (h : s.declare d = .ok (s', i)) :
    s.Grows s' := by
  cases change_of_declare h with
  | conceptual hext => exact ⟨hext.grows, .refl _, List.prefix_rfl⟩
  | store hext => exact ⟨.refl _, hext.grows, List.prefix_rfl⟩
  | pair id store => exact ⟨.refl _, .refl _, s.mapping.paired_prefix_pair id store⟩
  | edit hedit => exact ⟨.refl _, .refl _, Mapping.paired_edit hedit ▸ List.prefix_rfl⟩

/-! ## Any number of declarations -/

section Runs

variable {declarations : List Declaration} {start : Nat} {ids : List Issued}

/-- Declarations can be split anywhere: the rest goes on from what the first ones gave. -/
theorem declareFrom_append_eq_ok_iff {later : List Declaration} :
    s.declareFrom start (declarations ++ later) = .ok (s', ids) ↔
      ∃ s₀ ids₀ ids₁, s.declareFrom start declarations = .ok (s₀, ids₀) ∧
        s₀.declareFrom (start + declarations.length) later = .ok (s', ids₁) ∧
        ids = ids₀ ++ ids₁ := by
  -- on what comes first, with the place of the next declaration moving along
  induction declarations generalizing start s ids with
  | nil =>
    constructor
    · exact fun h => ⟨s, [], ids, rfl, h, rfl⟩
    · rintro ⟨s₀, ids₀, ids₁, h₀, h, rfl⟩
      cases h₀
      exact h
  | cons d rest ih =>
    rw [List.cons_append, declareFrom_cons_eq_ok_iff, List.length_cons]
    have hplace : start + (rest.length + 1) = start + 1 + rest.length := by omega
    rw [hplace]
    constructor
    · rintro ⟨s₁, i, ids', hd, hrest, rfl⟩
      obtain ⟨s₀, ids₀, ids₁, h₀, hlater, rfl⟩ := ih.1 hrest
      exact ⟨s₀, i :: ids₀, ids₁, declareFrom_cons_eq_ok_iff.2 ⟨s₁, i, ids₀, hd, h₀, rfl⟩, hlater,
        rfl⟩
    · rintro ⟨s₀, ids', ids₁, h₀, hlater, rfl⟩
      obtain ⟨s₁, i, ids₀, hd, hrest, rfl⟩ := declareFrom_cons_eq_ok_iff.1 h₀
      exact ⟨s₁, i, ids₀ ++ ids₁, hd, ih.2 ⟨s₀, ids₀, ids₁, hrest, hlater, rfl⟩, rfl⟩

/-- Whatever is declared, the schema has grown. -/
theorem grows_declareFrom (h : s.declareFrom start declarations = .ok (s', ids)) : s.Grows s' := by
  induction declarations generalizing start s ids with
  | nil =>
    cases h
    exact .refl _
  | cons d rest ih =>
    obtain ⟨s₁, i, ids₁, hd, hrest, -⟩ := declareFrom_cons_eq_ok_iff.1 h
    exact (grows_declare hd).trans (ih hrest)

end Runs

end Schema

end QueryViews
