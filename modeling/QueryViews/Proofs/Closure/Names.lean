import QueryViews.Proofs.Schema.Names

/-!
# The names in a content

The content of a mapped container has the name of its pair and the qualified names of all extents
of the pair, in their order (`Schema.extentNames_of_content`). Contents that say the same have the
same names, each as often (`Content.Same.extentNames`).
-/

namespace QueryViews

namespace Content

/-- The qualified names of the extents of a pair, in their order. -/
def extentNames (k : Content) : List String :=
  (k.entitySets.map fun set => s!"{k.conceptual}.{set.name}") ++
    (k.associationSets.map fun set => s!"{k.conceptual}.{set.name}") ++
    k.tables.map fun table => s!"{k.store}.{table.name}"

/-- Contents that say the same are about extents of the same names. -/
theorem Same.extentNames {k k' : Content} (h : k.Same k') :
    k.extentNames.Perm k'.extentNames := by
  have htables : (k.tables.map Table.name).Perm (k'.tables.map Table.name) :=
    h.tables.map_perm fun _ _ ht => ht.name
  have htables := htables.map fun name => s!"{k.store}.{name}"
  rw [List.map_map, List.map_map] at htables
  rw [Content.extentNames, Content.extentNames, ← h.conceptual, ← h.store]
  exact ((h.entitySets.map _).append (h.associationSets.map _)).append htables

end Content

namespace Schema

variable {s : Schema} {id : ContainerId} {k : Content}

/-- The name of a pair can be read off its content. -/
theorem pairName_of_content (h : s.content id = .ok (some k)) :
    s.pairName id = .ok s!"{k.conceptual}:{k.store}" := by
  obtain ⟨m, hm, hpair⟩ := content_eq_ok_some_iff.1 h
  obtain ⟨conceptual, store, _, _, hc, hs, -, -, hname, hname', -⟩ := pairContent_eq_ok_iff.1 hpair
  have hmapping : s.mapping.container id = .ok m := found_eq_ok_iff.2 hm
  rw [pairName, hmapping, ← hname, ← hname']
  change (s.conceptual.container m.conceptual >>= fun _ => _) = _
  rw [hc]
  change (s.store.container m.store >>= fun _ => _) = _
  rw [hs]
  rfl

/-- A container with content is the one that its pair goes by. -/
theorem canonicalContainer?_of_content (h : s.content id = .ok (some k)) :
    s.canonicalContainer? (.conceptual id) = some id := by
  obtain ⟨m, hm, -⟩ := content_eq_ok_some_iff.1 h
  rw [canonicalContainer?, hm]
  rfl

/-- The extents of a mapped pair and their names, which its content has too. -/
theorem Built.extentNames_of_content (hs : s.Built) (h : s.content id = .ok (some k)) :
    ∃ extents, s.extents id = .ok extents ∧ extents.mapM s.extentName = .ok k.extentNames := by
  obtain ⟨m, hm, hpair⟩ := content_eq_ok_some_iff.1 h
  obtain ⟨owner, store, _, tables, howner, hstore, -, htables, hname, hname', hentitySets,
    hassociationSets, -, -, hcolumns, -⟩ := pairContent_eq_ok_iff.1 hpair
  rw [conceptual_of_container? hm] at howner
  obtain ⟨hextents, hnames⟩ := hs.extents_named hm howner hstore htables
  have hentitySets : k.entitySets.map Content.EntitySet.name =
      owner.entitySets.map EntitySet.name := map_eq_of_mapM hentitySets fun set content h => by
    obtain ⟨type, -, hr⟩ := bind_eq_ok_iff.1 h
    cases hr
    rfl
  have hassociationSets : k.associationSets.map Content.AssociationSet.name =
      owner.associationSets.map AssociationSet.name :=
    map_eq_of_mapM hassociationSets fun _ _ h => (associationSetContent_eq_ok_iff.1 h).1.symm
  refine ⟨_, hextents, hnames.trans (congrArg Except.ok ?_)⟩
  rw [qualifiedNames, extentNames, ← hentitySets, ← hassociationSets, hname, hname',
    List.map_append, List.map_map, List.map_map, Content.extentNames, ← hcolumns, List.map_map]
  rfl

/-- Where contents say the same, a name that one extent alone has on one side, one extent alone has
on the other side too. -/
theorem exists_counterpart {s' : Schema} {id' : ContainerId} {k' : Content} (hs : s.Built)
    (hs' : s'.Built) (hk : s.content id = .ok (some k)) (hk' : s'.content id' = .ok (some k'))
    (hsame : k.Same k') {extents extents' : List Extent} (h : s.extents id = .ok extents)
    (h' : s'.extents id' = .ok extents') {n : String} {e' : Extent}
    (hsole : s'.Sole extents' n e') : ∃ e, s.Sole extents n e := by
  obtain ⟨_, hextents, hns⟩ := hs.extentNames_of_content hk
  obtain ⟨_, hextents', hns'⟩ := hs'.extentNames_of_content hk'
  cases hextents.symm.trans h
  cases hextents'.symm.trans h'
  -- how often a name is there does not depend on the order of the names
  rw [← count_eq_one_iff (hs.nodup_extents h) hns, hsame.extentNames.count_eq]
  exact (count_eq_one_iff (hs'.nodup_extents h') hns').2 ⟨e', hsole⟩

end Schema

end QueryViews
