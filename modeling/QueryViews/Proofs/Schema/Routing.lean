import QueryViews.Proofs.Schema.Names

/-!
# The pair that an extent is sent to

Whoever asks for an extent is sent to its container, and from there to the conceptual container that
stands for the pair. In a built schema that is the one pair which lists the extent
(`Schema.Built.extents_routed`).

Two kinds of bookkeeping have to agree for it. A table knows its container, and the container lists
its tables: declarations keep each side in step with the other (`Store.Owned`, `Store.Listed`). A
pair can be found from either of its containers: declarations never enter a conceptual container
twice (`Mapping.Keyed`), and verification refuses a store container that is mapped twice.
-/

namespace QueryViews

/-! ## Tables are listed -/

/-- Every table is listed by the container it is in. -/
def Store.Listed (st : Store) : Prop :=
  ∀ (id : TableId) t, st.tables[id.index]? = some t →
    ∃ owner, st.containers[t.container.index]? = some owner ∧ id ∈ owner.tables

/-- Adding to the store side keeps tables listed. -/
theorem Store.Extends.listed {st st' : Store} {d : Declaration} {i : Issued}
    (h : st.Extends d st' i) (hl : st.Listed) : st'.Listed := by
  intro id t ht
  cases h with
  | container name =>
    obtain ⟨owner, howner, hmem⟩ := hl id t ht
    exact ⟨owner, List.getElem?_append_left (List.getElem?_eq_some_iff.1 howner).1 ▸ howner, hmem⟩
  | @table id' grown h name =>
    have hgrown := found_eq_ok_iff.1 h
    have hlt := (List.getElem?_eq_some_iff.1 hgrown).1
    simp only [List.getElem?_append, List.getElem?_set] at ht ⊢
    by_cases hid : id.index < st.tables.length
    · rw [if_pos hid] at ht
      obtain ⟨owner, howner, hmem⟩ := hl id t ht
      by_cases hcontainer : id'.index = t.container.index
      · -- the container of the old table got one more at the end
        rw [if_pos hcontainer, if_pos hlt]
        obtain rfl : grown = owner := Option.some.inj (hgrown.symm.trans (hcontainer ▸ howner))
        exact ⟨_, rfl, List.mem_append_left _ hmem⟩
      · rw [if_neg hcontainer]
        exact ⟨owner, howner, hmem⟩
    · rw [if_neg hid] at ht
      -- the new table is the one at the end, and is listed where it was put
      obtain ⟨hplace, hnew⟩ := List.getElem?_eq_some_iff.1 ht
      obtain rfl : _ = t := (List.mem_singleton.1 (hnew ▸ List.getElem_mem hplace)).symm
      rw [if_pos rfl, if_pos hlt]
      refine ⟨_, rfl, List.mem_append_right _ (List.mem_singleton.2 (congrArg TableId.mk ?_))⟩
      rw [List.length_singleton] at hplace
      omega
  | @column id' old h role name type =>
    have hold := found_eq_ok_iff.1 h
    rw [List.getElem?_set] at ht
    by_cases hid : id'.index = id.index
    · rw [if_pos hid, if_pos (List.getElem?_eq_some_iff.1 hold).1] at ht
      cases ht
      exact hl id old (hid ▸ hold)
    · rw [if_neg hid] at ht
      exact hl id t ht

namespace Schema

variable {s : Schema} {id : ContainerId}

/-- Tables of a schema that was built are listed by their containers. -/
theorem Built.listed (hs : s.Built) : s.store.Listed :=
  hs.induction (fun _ _ h => nomatch h) fun _ _ _ _ hl h =>
    (change_of_declare h).store_induction hl fun hext => hext.listed hl

/-- In a schema that was built no container has two entries. -/
theorem Built.keyed (hs : s.Built) : s.mapping.Keyed :=
  hs.induction List.nodup_nil fun _ _ _ _ hm h => (change_of_declare h).keyed hm

/-! ## Pairs and their store sides -/

/-- A store container leads to a conceptual one exactly if that is mapped to it. -/
theorem Built.canonicalContainer?_store_eq_some_iff (hs : s.Built) {store : StoreId} :
    s.canonicalContainer? (.store store) = some id ↔
      ∃ m, s.mapping.container? id = some m ∧ m.store = store := by
  rw [canonicalContainer?, Option.map_eq_some_iff]
  constructor
  · rintro ⟨m, hm, rfl⟩
    have hstore := List.find?_some hm
    exact ⟨m, find?_eq_some_of_nodup hs.keyed (List.mem_of_find?_eq_some hm),
      of_decide_eq_true hstore⟩
  · rintro ⟨m, hm, rfl⟩
    exact ⟨m, hs.verified.containerForStore? hm, conceptual_of_container? hm⟩

/-- A conceptual container leads to itself, if it is mapped. -/
theorem canonicalContainer?_conceptual_eq_some_iff {id' : ContainerId} :
    s.canonicalContainer? (.conceptual id') = some id ↔
      id' = id ∧ ∃ m, s.mapping.container? id = some m := by
  rw [canonicalContainer?, Option.map_eq_some_iff]
  constructor
  · rintro ⟨m, hm, rfl⟩
    exact ⟨rfl, m, hm⟩
  · rintro ⟨rfl, m, hm⟩
    exact ⟨m, hm, rfl⟩

/-! ## The extents of a pair -/

/-- An extent that is there: a set of a container, or a table. -/
def Declares (s : Schema) : Extent → Prop
  | .entitySet id => ∃ set, s.conceptual.entitySet id = .ok set
  | .associationSet id => ∃ set, s.conceptual.associationSet id = .ok set
  | .table id => ∃ t, s.store.table id = .ok t

/-- An extent that is there is in a container. -/
theorem Declares.exists_containerOf {e : Extent} (h : s.Declares e) :
    ∃ r, s.containerOf e = .ok r := by
  cases e with
  | entitySet set | associationSet set => exact ⟨_, rfl⟩
  | table t =>
    obtain ⟨table, htable⟩ := h
    exact ⟨_, bind_eq_ok_iff.2 ⟨table, htable, rfl⟩⟩

/-- The sets of a container are those that are there. -/
theorem mem_conceptualExtents_iff {owner : Container}
    (howner : s.conceptual.container id = .ok owner) {e : Extent} :
    e ∈ conceptualExtents id owner ↔ s.Declares e ∧ e.container? = some id := by
  -- the sets of a container are numbered from zero, so what is there is a matter of bounds
  have hentity (set : EntitySetId) (hset : set.container = id) :
      s.Declares (.entitySet set) ↔ set.index < owner.entitySets.length := by
    subst hset
    rw [Declares, Conceptual.entitySet, howner]
    exact exists_found_iff
  have hassociation (set : AssociationSetId) (hset : set.container = id) :
      s.Declares (.associationSet set) ↔ set.index < owner.associationSets.length := by
    subst hset
    rw [Declares, Conceptual.associationSet, howner]
    exact exists_found_iff
  rw [conceptualExtents, List.mem_append, List.mem_map, List.mem_map]
  constructor
  · rintro (⟨i, hi, rfl⟩ | ⟨i, hi, rfl⟩)
    · exact ⟨(hentity ⟨id, i⟩ rfl).2 (List.mem_range.1 hi), rfl⟩
    · exact ⟨(hassociation ⟨id, i⟩ rfl).2 (List.mem_range.1 hi), rfl⟩
  · rintro ⟨h, hid⟩
    cases e with
    | entitySet set =>
      cases hid
      exact .inl ⟨set.index, List.mem_range.2 ((hentity set rfl).1 h), rfl⟩
    | associationSet set =>
      cases hid
      exact .inr ⟨set.index, List.mem_range.2 ((hassociation set rfl).1 h), rfl⟩
    | table t => cases hid

/-- The tables of a store container are those that are in it. -/
theorem Built.mem_tablesIn_iff (hs : s.Built) {store : StoreId} {tables : List (TableId × Table)}
    (htables : s.store.tablesIn store = .ok tables) {t : TableId} {table : Table} :
    (t, table) ∈ tables ↔ s.store.table t = .ok table ∧ table.container = store := by
  refine ⟨hs.of_mem_tablesIn htables, ?_⟩
  rintro ⟨htable, rfl⟩
  obtain ⟨owner, howner, hlist⟩ := bind_eq_ok_iff.1 htables
  obtain ⟨owner', howner', hmem⟩ := hs.listed t table (found_eq_ok_iff.1 htable)
  obtain rfl : owner = owner' := Option.some.inj ((found_eq_ok_iff.1 howner).symm.trans howner')
  obtain ⟨p, hp, h⟩ := exists_mem_of_mapM hlist hmem
  obtain ⟨table', htable', hr⟩ := bind_eq_ok_iff.1 h
  cases hr
  cases htable.symm.trans htable'
  exact hp

/-- A pair lists the extents that are there and lead to it. -/
theorem Built.mem_extents_iff (hs : s.Built) {extents : List Extent}
    (h : s.extents id = .ok extents) {e : Extent} : e ∈ extents ↔ s.Declares e ∧
      ∃ r, s.containerOf e = .ok r ∧ s.canonicalContainer? r = some id := by
  refine ⟨fun he => ⟨?_, hs.canonicalContainer?_of_mem_extents h he⟩, ?_⟩ <;>
    obtain ⟨m, hm, h⟩ := bind_eq_ok_iff.1 h <;>
    obtain ⟨owner, howner, h⟩ := bind_eq_ok_iff.1 h <;>
    obtain ⟨tables, htables, hr⟩ := bind_eq_ok_iff.1 h <;> cases hr
  · rcases List.mem_append.1 he with he | he
    · exact ((mem_conceptualExtents_iff howner).1 he).1
    · obtain ⟨⟨t, table⟩, ht, rfl⟩ := List.mem_map.1 he
      exact ⟨table, ((hs.mem_tablesIn_iff htables).1 ht).1⟩
  · rintro ⟨he, r, hr, hid⟩
    cases e with
    | entitySet set | associationSet set =>
      cases hr
      obtain ⟨hcontainer, -⟩ := canonicalContainer?_conceptual_eq_some_iff.1 hid
      exact List.mem_append_left _
        ((mem_conceptualExtents_iff howner).2 ⟨he, congrArg some hcontainer⟩)
    | table t =>
      obtain ⟨table, htable, hr⟩ := bind_eq_ok_iff.1 hr
      cases hr
      obtain ⟨m', hm', hstore⟩ := hs.canonicalContainer?_store_eq_some_iff.1 hid
      obtain rfl : m = m' := Option.some.inj ((found_eq_ok_iff.1 hm).symm.trans hm')
      exact List.mem_append_right _ (List.mem_map.2
        ⟨(t, table), (hs.mem_tablesIn_iff htables).2 ⟨htable, hstore.symm⟩, rfl⟩)

/-- A pair whose conceptual side is there can list its extents. -/
theorem Built.exists_extents (hs : s.Built) {owner : Container} {m : ContainerMapping}
    (howner : s.conceptual.container id = .ok owner) (hm : s.mapping.container? id = some m) :
    ∃ extents, s.extents id = .ok extents := by
  obtain ⟨store, tables, hstore, htables⟩ := hs.exists_tablesIn (List.mem_of_find?_eq_some hm)
  exact ⟨_, (hs.extents_named hm howner hstore htables).1⟩

/-- **Routing.** In a built schema a mapped container that is there can list its extents. Of the
extents that are there it lists those whose container leads to it, each once, and nothing else;
different containers list nothing in common. A store container leads to the one conceptual container
that is mapped to it. -/
theorem Built.extents_routed (hs : s.Built) :
    (∀ id owner m, s.conceptual.container id = .ok owner → s.mapping.container? id = some m →
      ∃ extents, s.extents id = .ok extents ∧ (∀ e ∈ extents, s.Declares e) ∧
        ∀ e, s.Declares e → ∃ r, s.containerOf e = .ok r ∧
          extents.count e = if s.canonicalContainer? r = some id then 1 else 0) ∧
      (∀ id id' extents extents', id ≠ id' → s.extents id = .ok extents →
        s.extents id' = .ok extents' → extents.Disjoint extents') ∧
      (∀ store id, s.canonicalContainer? (.store store) = some id ↔
        ∃ m, s.mapping.container? id = some m ∧ m.store = store) ∧
      ∀ id id' m m', s.mapping.container? id = some m → s.mapping.container? id' = some m' →
        m.store = m'.store → id = id' := by
  refine ⟨fun id owner m howner hm => ?_, fun id id' extents extents' hne h h' e he he' => ?_,
    fun store id => hs.canonicalContainer?_store_eq_some_iff,
    fun id id' m m' hm hm' hstore => ?_⟩
  · obtain ⟨extents, h⟩ := hs.exists_extents howner hm
    refine ⟨extents, h, fun e he => ((hs.mem_extents_iff h).1 he).1, fun e he => ?_⟩
    obtain ⟨r, hr⟩ := he.exists_containerOf
    refine ⟨r, hr, ?_⟩
    have hmem : e ∈ extents ↔ s.canonicalContainer? r = some id := by
      rw [hs.mem_extents_iff h, hr]
      simp only [he, true_and, Except.ok.injEq, exists_eq_left']
    rw [(hs.nodup_extents h).count, if_congr hmem rfl rfl]
  · obtain ⟨-, r, hr, hid⟩ := (hs.mem_extents_iff h).1 he
    obtain ⟨-, r', hr', hid'⟩ := (hs.mem_extents_iff h').1 he'
    cases hr.symm.trans hr'
    exact hne (Option.some.inj (hid.symm.trans hid'))
  · have hid := hs.canonicalContainer?_store_eq_some_iff.2 ⟨m, hm, rfl⟩
    have hid' := hs.canonicalContainer?_store_eq_some_iff.2 ⟨m', hm', rfl⟩
    rw [hstore] at hid
    exact Option.some.inj (hid.symm.trans hid')

end Schema

namespace Branches

/-- Two branches that keep their sales in each other's database: the first one was paired with its
own, until the second took it. The tables of the two databases were declared in turns. -/
def declarations : List Declaration := [
  .entity "Sale", .field .key ⟨0⟩ "Id" .int32, .container "North", .container "South",
  .entitySet ⟨0⟩ "Sales" ⟨0⟩, .entitySet ⟨1⟩ "Sales" ⟨0⟩, .storeContainer "NorthDb",
  .storeContainer "SouthDb", .table ⟨1⟩ "Sale", .table ⟨0⟩ "Sale", .table ⟨1⟩ "Archive",
  .mapContainers ⟨0⟩ ⟨0⟩, .mapContainers ⟨1⟩ ⟨0⟩, .mapContainers ⟨0⟩ ⟨1⟩]

/-- The schema that they make. -/
def schema : Schema where
  conceptual := ⟨[⟨"Sale", [⟨"Id", .scalar .int32, false, false⟩],
    .entity ⟨none, false, [⟨⟨0⟩, 0⟩]⟩⟩], [],
    [⟨"North", [⟨"Sales", ⟨0⟩⟩], []⟩, ⟨"South", [⟨"Sales", ⟨0⟩⟩], []⟩]⟩
  store := ⟨[⟨"NorthDb", [⟨1⟩]⟩, ⟨"SouthDb", [⟨0⟩, ⟨2⟩]⟩],
    [⟨⟨1⟩, "Sale", [], []⟩, ⟨⟨0⟩, "Sale", [], []⟩, ⟨⟨1⟩, "Archive", [], []⟩]⟩
  mapping := ⟨[⟨⟨0⟩, ⟨1⟩, []⟩, ⟨⟨1⟩, ⟨0⟩, []⟩]⟩

theorem built : schema.Built := ⟨declarations, _, rfl⟩

/-- The first table is listed once for the branch that uses its database, and not for the other. -/
theorem table_listed_once : schema.Built ∧ ∃ north south, schema.extents ⟨0⟩ = .ok north ∧
    schema.extents ⟨1⟩ = .ok south ∧ north.count (.table ⟨0⟩) = 1 ∧
    south.count (.table ⟨0⟩) = 0 ∧ north.Disjoint south ∧
    schema.canonicalContainer? (.store ⟨1⟩) = some ⟨0⟩ := by
  obtain ⟨hlists, hdisjoint, hstore, -⟩ := Schema.Built.extents_routed built
  obtain ⟨north, hnorth, -, hincluded⟩ := hlists ⟨0⟩ _ _ rfl rfl
  obtain ⟨south, hsouth, -, hexcluded⟩ := hlists ⟨1⟩ _ _ rfl rfl
  have hdeclared : schema.Declares (.table ⟨0⟩) := ⟨_, rfl⟩
  obtain ⟨r, hr, honce⟩ := hincluded _ hdeclared
  obtain ⟨r', hr', hnever⟩ := hexcluded _ hdeclared
  cases hr
  cases hr'
  exact ⟨built, north, south, hnorth, hsouth, honce, hnever,
    hdisjoint _ _ _ _ (by decide) hnorth hsouth, (hstore ⟨1⟩ ⟨0⟩).2 ⟨_, rfl, rfl⟩⟩

end Branches

end QueryViews
