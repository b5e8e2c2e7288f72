import QueryViews.Proofs.Closure.Faithful
import QueryViews.Proofs.OrderedMap
import QueryViews.Proofs.Schema.Changes

/-!
# Pairs of containers

What the extents of a mapped pair have in common. In a schema that was put together by
declarations, every table that a store container lists is in that container
(`Store.Owned`); in one that was verified, no store container is mapped twice. So each extent of a
pair leads back to it (`Schema.Built.canonicalContainer?_of_mem_extents`).
-/

namespace QueryViews

/-! ## Tables and their containers -/

/-- The tables that a store container lists are there, belong to it, and are listed once. -/
def Store.Owned (st : Store) : Prop :=
  ∀ (id : StoreId) owner, st.containers[id.index]? = some owner → owner.tables.Nodup ∧
    ∀ t ∈ owner.tables, ∃ table, st.tables[t.index]? = some table ∧ table.container = id

/-- Adding to the store side keeps tables in their containers. -/
theorem Store.Extends.owned {st st' : Store} {d : Declaration} {i : Issued}
    (h : st.Extends d st' i) (ho : st.Owned) : st'.Owned := by
  intro id owner howner
  cases h with
  | container name =>
    rw [List.getElem?_append] at howner
    by_cases hlt : id.index < st.containers.length
    · rw [if_pos hlt] at howner
      exact ho id owner howner
    · rw [if_neg hlt] at howner
      obtain rfl := List.mem_singleton.1 (List.mem_of_getElem? howner)
      exact ⟨List.nodup_nil, nofun⟩
  | @table id' owner' h name =>
    have howner' := found_eq_ok_iff.1 h
    -- a table stays where it is, and the new one comes after all of them
    have hkept : ∀ {t : TableId} {table}, st.tables[t.index]? = some table →
        (st.tables ++ [⟨id', name, [], []⟩])[t.index]? = some table := by grind
    rw [List.getElem?_set] at howner
    by_cases hid : id'.index = id.index
    · obtain rfl : id' = id := congrArg StoreId.mk hid
      obtain ⟨hlt, -⟩ := List.getElem?_eq_some_iff.1 howner'
      rw [if_pos rfl, if_pos hlt] at howner
      cases howner
      obtain ⟨hnodup, hall⟩ := ho id' owner' howner'
      -- no table that is listed already has the place of the new one
      have hnew : ⟨st.tables.length⟩ ∉ owner'.tables := fun hmem => by
        obtain ⟨table, htable, -⟩ := hall _ hmem
        exact absurd (List.getElem?_eq_some_iff.1 htable).1 (Nat.lt_irrefl _)
      refine ⟨List.nodup_append.2 ⟨hnodup, List.nodup_singleton _, fun t ht t' ht' heq => ?_⟩,
        fun t ht => ?_⟩
      · exact hnew (List.mem_singleton.1 ht' ▸ heq ▸ ht)
      · rcases List.mem_append.1 ht with ht | ht
        · obtain ⟨table, htable, howned⟩ := hall t ht
          exact ⟨table, hkept htable, howned⟩
        · obtain rfl := List.mem_singleton.1 ht
          exact ⟨_, List.getElem?_concat_length, rfl⟩
    · rw [if_neg hid] at howner
      obtain ⟨hnodup, hall⟩ := ho id owner howner
      refine ⟨hnodup, fun t ht => ?_⟩
      obtain ⟨table, htable, howned⟩ := hall t ht
      exact ⟨table, hkept htable, howned⟩
  | @column id' t' h role name type =>
    obtain ⟨hnodup, hall⟩ := ho id owner howner
    refine ⟨hnodup, fun t ht => ?_⟩
    obtain ⟨table, htable, howned⟩ := hall t ht
    have ht' := found_eq_ok_iff.1 h
    by_cases hid : id'.index = t.index
    · have hsame : t' = table := Option.some.inj (ht'.symm.trans (hid ▸ htable))
      exact ⟨t'.grown id' role name type, by grind, hsame ▸ howned⟩
    · exact ⟨table, by grind, howned⟩

/-- Tables are in a store container that is there, and their keys are made of own columns. -/
def Store.Placed (st : Store) : Prop :=
  ∀ (id : TableId) t, st.tables[id.index]? = some t → t.container.index < st.containers.length ∧
    ∀ c ∈ t.key, c.table = id ∧ c.index < t.columns.length

/-- Adding to the store side keeps tables and keys in place. -/
theorem Store.Extends.placed {st st' : Store} {d : Declaration} {i : Issued}
    (h : st.Extends d st' i) (hp : st.Placed) : st'.Placed := by
  intro id t ht
  cases h with
  | container name =>
    obtain ⟨hlt, hkey⟩ := hp id t ht
    exact ⟨by simp only [List.length_append]; omega, hkey⟩
  | table h =>
    rw [List.length_set]
    rw [List.getElem?_append] at ht
    split at ht
    · exact hp id t ht
    · obtain rfl := List.mem_singleton.1 (List.mem_of_getElem? ht)
      exact ⟨(List.getElem?_eq_some_iff.1 (found_eq_ok_iff.1 h)).1, nofun⟩
  | @column id' t' h role name type =>
    rw [List.getElem?_set] at ht
    split at ht
    · rename_i heq
      obtain rfl : id' = id := congrArg TableId.mk heq
      obtain ⟨hlt, hold⟩ := hp id' t' (found_eq_ok_iff.1 h)
      split at ht
      · cases ht
        have hcolumns : (t'.grown id' role name type).columns.length = t'.columns.length + 1 :=
          List.length_append
        refine ⟨hlt, fun c hc => ?_⟩
        rw [hcolumns]
        -- a key column is one from before, or the new one at the end
        rcases Table.of_mem_key_grown hc with hc | rfl
        · exact ⟨(hold c hc).1, (hold c hc).2.trans (Nat.lt_succ_self _)⟩
        · exact ⟨rfl, Nat.lt_succ_self _⟩
      · cases ht
    · exact hp id t ht

namespace Schema

variable {s : Schema}

/-- Store containers of a schema that was built list their own tables. -/
theorem Built.owned (hs : s.Built) : s.store.Owned :=
  hs.induction (fun _ _ h => nomatch h) fun _ _ _ _ ho h =>
    (change_of_declare h).store_induction ho fun hext => hext.owned ho

/-- Tables of a schema that was built are in a container, and have their keys among their
columns. -/
theorem Built.placed (hs : s.Built) : s.store.Placed :=
  hs.induction (fun _ _ h => nomatch h) fun _ _ _ _ hp h =>
    (change_of_declare h).store_induction hp fun hext => hext.placed hp

/-- What a store container lists is a table of its own. -/
theorem Built.of_mem_tablesIn (hs : s.Built) {store : StoreId} {tables : List (TableId × Table)}
    (htables : s.store.tablesIn store = .ok tables) {t : TableId} {table : Table}
    (h : (t, table) ∈ tables) : s.store.table t = .ok table ∧ table.container = store := by
  obtain ⟨owner, howner, htables⟩ := bind_eq_ok_iff.1 htables
  obtain ⟨t', ht', h⟩ := exists_of_mem_mapM htables h
  obtain ⟨table', htable, hr⟩ := bind_eq_ok_iff.1 h
  cases hr
  obtain ⟨-, hall⟩ := hs.owned store owner (found_eq_ok_iff.1 howner)
  obtain ⟨table', hfound, howned⟩ := hall t ht'
  obtain rfl : table = table' := Option.some.inj ((found_eq_ok_iff.1 htable).symm.trans hfound)
  exact ⟨htable, howned⟩

/-! ## The pair that an extent leads to -/

/-- The entry that is found for a container is that of the container. -/
theorem conceptual_of_container? {id : ContainerId} {m : ContainerMapping}
    (h : s.mapping.container? id = some m) : m.conceptual = id := by
  have hm := List.find?_some h
  exact of_decide_eq_true hm

/-- The entry of a container is found from its store container too, since no two share one. -/
theorem Verified.containerForStore? (hv : s.Verified) {id : ContainerId} {m : ContainerMapping}
    (h : s.mapping.container? id = some m) : s.mapping.containerForStore? m.store = some m :=
  find?_eq_some_of_nodup hv.nodup_stores (List.mem_of_find?_eq_some h)

/-- Every extent of a mapped pair leads back to the pair. -/
theorem Built.canonicalContainer?_of_mem_extents (hs : s.Built) {id : ContainerId}
    {extents : List Extent} {e : Extent} (h : s.extents id = .ok extents) (he : e ∈ extents) :
    ∃ r, s.containerOf e = .ok r ∧ s.canonicalContainer? r = some id := by
  simp only [Schema.extents, bind_eq_ok_iff] at h
  obtain ⟨m, hm, owner, -, tables, htables, hr⟩ := h
  obtain rfl := Except.ok.inj hr
  have hm : s.mapping.container? id = some m := found_eq_ok_iff.1 hm
  have hconceptual : s.canonicalContainer? (.conceptual id) = some id := by
    rw [canonicalContainer?, hm]
    rfl
  rcases List.mem_append.1 he with he | he
  · rcases List.mem_append.1 he with he | he <;> obtain ⟨index, -, rfl⟩ := List.mem_map.1 he
    · exact ⟨_, rfl, hconceptual⟩
    · exact ⟨_, rfl, hconceptual⟩
  · obtain ⟨⟨t, table⟩, ht, rfl⟩ := List.mem_map.1 he
    -- a table is listed by the container that owns it, and no second one is mapped to that
    obtain ⟨htable, howned⟩ := hs.of_mem_tablesIn htables ht
    have hcontainer : s.containerOf (.table t) = .ok (.store m.store) := by
      rw [containerOf, htable, ← howned]
      rfl
    refine ⟨_, hcontainer, ?_⟩
    rw [canonicalContainer?, hs.verified.containerForStore? hm, Option.map_some,
      conceptual_of_container? hm]

/-- No extent is listed twice for a pair. -/
theorem Built.nodup_extents (hs : s.Built) {id : ContainerId} {extents : List Extent}
    (h : s.extents id = .ok extents) : extents.Nodup := by
  simp only [Schema.extents, bind_eq_ok_iff] at h
  obtain ⟨m, -, owner, -, tables, htables, hr⟩ := h
  obtain rfl := Except.ok.inj hr
  obtain ⟨store, hstore, htables⟩ := bind_eq_ok_iff.1 htables
  have hids : tables.map Prod.fst = store.tables := by
    rw [mapM_eq_ok_iff] at htables
    rw [← List.forall₂_eq_eq_eq, List.forall₂_map_left_iff]
    refine htables.flip.imp fun p t h => ?_
    obtain ⟨table, -, hr⟩ := bind_eq_ok_iff.1 h
    cases hr
    rfl
  obtain ⟨hnodup, -⟩ := hs.owned m.store store (found_eq_ok_iff.1 hstore)
  have htables : (tables.map fun p => Extent.table p.1).Nodup := by
    have hmap : (tables.map fun p => Extent.table p.1) = store.tables.map Extent.table := by
      rw [← hids, List.map_map]
      rfl
    rw [hmap]
    exact hnodup.map fun _ _ h => Extent.table.inj h
  -- each of the three kinds is without repetition, and no two kinds share an extent
  refine List.nodup_append.2 ⟨List.nodup_append.2 ⟨?_, ?_, ?_⟩, htables, ?_⟩
  · exact List.nodup_range.map fun _ _ h => congrArg EntitySetId.index (Extent.entitySet.inj h)
  · exact List.nodup_range.map fun _ _ h =>
      congrArg AssociationSetId.index (Extent.associationSet.inj h)
  · intro e he e' he' heq
    obtain ⟨i, -, rfl⟩ := List.mem_map.1 he
    obtain ⟨j, -, rfl⟩ := List.mem_map.1 he'
    cases heq
  · intro e he e' he' heq
    obtain ⟨p, -, rfl⟩ := List.mem_map.1 he'
    rcases List.mem_append.1 he with he | he <;> obtain ⟨i, -, rfl⟩ := List.mem_map.1 he <;>
      cases heq

end Schema

end QueryViews
