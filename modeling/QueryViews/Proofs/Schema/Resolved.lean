import QueryViews.Proofs.Schema.Keys

/-!
# What the checks look up

A check that follows an id and passes has found something there: every chain of base types ends
(`Verified.exists_ancestors`), embedded types and the ends of relationships are declared and of the
right kind, association sets have a relationship and bind entity sets. So these look-ups never fail
in a built schema.
-/

namespace QueryViews

namespace Conceptual

variable {c : Conceptual}

/-- An end is found in its association. -/
theorem associationEnd_eq_ok_iff {id : EndId} {e : AssociationEnd} : c.associationEnd id = .ok e ↔
    ∃ a, c.association id.association = .ok a ∧ a.ends.get? id.index = some e := by
  simp only [associationEnd, bind_eq_ok_iff, found_eq_ok_iff]

/-- An entity set is found at its place in its container. -/
theorem entitySet_eq_ok_iff {id : EntitySetId} {set : EntitySet} : c.entitySet id = .ok set ↔
    ∃ owner, c.container id.container = .ok owner ∧ owner.entitySets[id.index]? = some set := by
  simp only [entitySet, bind_eq_ok_iff, found_eq_ok_iff]

/-- An association set is found at its place in its container. -/
theorem associationSet_eq_ok_iff {id : AssociationSetId} {set : AssociationSet} :
    c.associationSet id = .ok set ↔ ∃ owner, c.container id.container = .ok owner ∧
      owner.associationSets[id.index]? = some set := by
  simp only [associationSet, bind_eq_ok_iff, found_eq_ok_iff]

/-- The association sets that touch an entity set can be listed if its container is there. -/
theorem exists_touching {set : EntitySetId} {owner : Container}
    (h : c.container set.container = .ok owner) : ∃ l, c.touching set = .ok l :=
  ⟨_, bind_eq_ok_iff.2 ⟨_, bind_eq_ok_iff.2 ⟨owner, h, rfl⟩, rfl⟩⟩

/-- Where an entity set is bound: the association sets next to it that have it at some end. -/
theorem mem_touching_iff {set : EntitySetId} {l : List (AssociationSetId × AssociationSet × Nat)}
    (h : c.touching set = .ok l) {id : AssociationSetId} {bound : AssociationSet} {index : Nat} :
    (id, bound, index) ∈ l ↔ id.container = set.container ∧
      c.associationSet id = .ok bound ∧ bound.ends.get? index = some set := by
  obtain ⟨sets, hsets, hr⟩ := bind_eq_ok_iff.1 h
  obtain ⟨owner, howner, hr'⟩ := bind_eq_ok_iff.1 hsets
  cases hr
  cases hr'
  simp only [associationSet_eq_ok_iff, List.mem_flatMap, List.mem_map, List.mem_filterMap,
    List.mem_zipIdx_iff_getElem?, Prod.exists, Ends.get?]
  constructor
  · rintro ⟨id', bound', ⟨bound'', place, hplace, heq⟩, end', index', hend, hbound⟩
    cases heq
    by_cases hset : end' = set
    · rw [if_pos hset] at hbound
      cases hbound
      exact ⟨rfl, ⟨owner, howner, hplace⟩, hset ▸ hend⟩
    · rw [if_neg hset] at hbound
      cases hbound
  · rintro ⟨hcontainer, ⟨owner', howner', hplace⟩, hend⟩
    rw [hcontainer, howner] at howner'
    cases howner'
    obtain ⟨container, place⟩ := id
    obtain rfl := hcontainer
    exact ⟨_, bound, ⟨bound, place, hplace, rfl⟩, set, index, hend, if_pos rfl⟩

end Conceptual

namespace Schema

variable {s : Schema}

/-! ## Types -/

/-- Base types can be followed to their end if they make a chain that is no longer than allowed. -/
theorem checkBases_eq_ok_iff {name : String} {bound : Nat} {base : ModelId} :
    s.checkBases name bound (some base) = .ok () ↔
      ∃ chain, s.conceptual.Chain base chain ∧ chain.length ≤ bound := by
  constructor
  · intro h
    -- on the number of bases that may still be followed, which the check counts down
    induction bound generalizing base with
    | zero =>
      rw [checkBases] at h
      split at h <;> cases h
    | succ bound ih =>
      rw [checkBases] at h
      split at h
      · cases h
      · rename_i m hm
        have hmodel : s.conceptual.model base = .ok m := found_eq_ok_iff.2 hm
        simp only at h
        cases hbase : m.base? with
        | none => exact ⟨[base], .root hmodel hbase, Nat.le_add_left _ _⟩
        | some above =>
          rw [hbase] at h
          obtain ⟨chain, hchain, hlength⟩ := ih h
          exact ⟨base :: chain, .derived hmodel hbase hchain, Nat.succ_le_succ hlength⟩
  · rintro ⟨chain, hchain, hlength⟩
    -- and on the chain the other way round, of which the check takes one type at a time
    induction hchain generalizing bound with
    | root hm hbase =>
      obtain ⟨bound, rfl⟩ := Nat.exists_eq_add_of_lt hlength
      rw [checkBases, found_eq_ok_iff.1 hm]
      simp only [hbase, checkBases]
    | derived hm hbase rest ih =>
      obtain ⟨bound, rfl⟩ := Nat.exists_eq_add_of_lt hlength
      rw [checkBases, found_eq_ok_iff.1 hm]
      simp only [hbase]
      exact ih (Nat.le_add_right _ _)

/-- The check passes exactly if each type has a chain. No chain is too long for it. -/
theorem checkInheritance_eq_ok_iff : s.checkInheritance = .ok () ↔
    ∀ id m, s.conceptual.model id = .ok m → ∃ chain, s.conceptual.Chain id chain := by
  rw [checkInheritance, forM_eq_ok_iff]
  constructor
  · intro h id m hm
    have hbases := h m (mem_of_found hm)
    cases hbase : m.base? with
    | none => exact ⟨[id], .root hm hbase⟩
    | some base =>
      rw [hbase] at hbases
      obtain ⟨chain, hchain, -⟩ := checkBases_eq_ok_iff.1 hbases
      exact ⟨id :: chain, .derived hm hbase hchain⟩
  · intro h m hmem
    obtain ⟨index, hindex⟩ := List.mem_iff_getElem?.1 hmem
    have hm : s.conceptual.model ⟨index⟩ = .ok m := found_eq_ok_iff.2 hindex
    obtain ⟨chain, hchain⟩ := h ⟨index⟩ m hm
    cases hchain with
    | root hm' hbase =>
      cases hm.symm.trans hm'
      rw [hbase, checkBases]
    | derived hm' hbase rest =>
      cases hm.symm.trans hm'
      rw [hbase]
      -- a chain has no type twice, so it is not longer than the list of types
      exact checkBases_eq_ok_iff.2 ⟨_, rest, rest.length_le⟩

/-- In a verified schema the walk up from a type ends at a root. -/
theorem Verified.exists_ancestors (hv : s.Verified) {id : ModelId} {m : Model}
    (hm : s.conceptual.model id = .ok m) : ∃ chain, s.conceptual.ancestors id = .ok chain := by
  obtain ⟨chain, hchain⟩ := checkInheritance_eq_ok_iff.1 hv.inheritance id m hm
  exact ⟨chain, Conceptual.ancestors_eq_ok_iff.2 hchain⟩

/-- Whether one type is above another can be told of every type that is declared. -/
theorem Verified.exists_isAssignable (hv : s.Verified) {id : ModelId} {m : Model}
    (hm : s.conceptual.model id = .ok m) (ancestor : ModelId) :
    ∃ b, s.conceptual.isAssignable id ancestor = .ok b := by
  obtain ⟨chain, hchain⟩ := hv.exists_ancestors hm
  exact ⟨_, bind_eq_ok_iff.2 ⟨chain, hchain, rfl⟩⟩

/-- Each field of a type passed its check. -/
theorem Verified.checkField (hv : s.Verified) {id : ModelId} {m : Model}
    (hm : s.conceptual.model id = .ok m) {f : Field} (hf : f ∈ m.fields) :
    s.checkField id m f = .ok () := by
  have hfields := hv.fields
  unfold checkFields at hfields
  have hcheck := forM_eq_ok_iff.1 hfields (m, id.index)
    (List.mk_mem_zipIdx_iff_getElem?.2 (found_eq_ok_iff.1 hm))
  exact forM_eq_ok_iff.1 hcheck f hf

/-- What a field embeds is declared, and is no entity type. -/
theorem Verified.exists_embedded (hv : s.Verified) {id : ModelId} {m : Model}
    (hm : s.conceptual.model id = .ok m) {f : Field} (hf : f ∈ m.fields) {target : ModelId}
    (htype : f.type = .embedded target) :
    ∃ t, s.conceptual.model target = .ok t ∧ t.isEntity = false := by
  have h := hv.checkField hm hf
  simp only [Schema.checkField, htype, knownModel] at h
  obtain ⟨t, ht, h⟩ := bind_eq_ok_iff.1 h
  split at ht
  · rename_i t' hfound
    cases ht
    refine ⟨t, found_eq_ok_iff.2 hfound, ?_⟩
    cases hentity : t.isEntity with
    | false => rfl
    | true =>
      rw [hentity] at h
      cases h
  · cases ht

/-- What a field navigates is declared, and its model is at the near end. -/
theorem Verified.exists_navigated (hv : s.Verified) {id : ModelId} {m : Model}
    (hm : s.conceptual.model id = .ok m) {f : Field} (hf : f ∈ m.fields)
    {association : AssociationId} {near far : Nat}
    (htype : f.type = .navigation association near far) :
    ∃ a e, s.conceptual.association association = .ok a ∧ a.ends.get? near = some e ∧
      s.conceptual.isAssignable id e.model = .ok true := by
  have h := hv.checkField hm hf
  simp only [Schema.checkField, htype] at h
  split at h
  · cases h
  · rename_i a ha
    split at h
    · cases h
    · rename_i e he
      obtain ⟨b, hb, h⟩ := bind_eq_ok_iff.1 h
      cases b with
      | false => cases h
      | true => exact ⟨a, e, found_eq_ok_iff.2 ha, he, lift_eq_ok_iff.1 hb⟩

/-! ## Relationships -/

/-- The types at the ends of a relationship are entity types. -/
theorem Verified.exists_end (hv : s.Verified) {a : Association}
    (ha : a ∈ s.conceptual.associations) {index : Nat} {e : AssociationEnd}
    (he : a.ends.get? index = some e) :
    ∃ m, s.conceptual.model e.model = .ok m ∧ m.isEntity = true := by
  obtain ⟨⟨⟩, hends, -⟩ := bind_eq_ok_iff.1 (forM_eq_ok_iff.1 hv.associations a ha)
  have h := forM_eq_ok_iff.1 hends e (List.mem_of_getElem? he)
  obtain ⟨m, hm, h⟩ := bind_eq_ok_iff.1 h
  rw [knownModel] at hm
  split at hm
  · rename_i m' hfound
    cases hm
    refine ⟨m, found_eq_ok_iff.2 hfound, ?_⟩
    cases hentity : m.isEntity with
    | true => rfl
    | false =>
      rw [hentity] at h
      cases h
  · cases hm

/-- An association set has a relationship. -/
theorem Verified.exists_association (hv : s.Verified) {id : AssociationSetId}
    {set : AssociationSet} (hset : s.conceptual.associationSet id = .ok set) :
    ∃ a, s.conceptual.association set.association = .ok a := by
  obtain ⟨owner, howner, hset⟩ := Conceptual.associationSet_eq_ok_iff.1 hset
  obtain ⟨a, ha, -⟩ := bind_eq_ok_iff.1 (hv.checkAssociationSet howner hset)
  exact ⟨a, lift_eq_ok_iff.1 ha⟩

end Schema

/-- There are two ends. -/
theorem Ends.exists_get? {α : Type} (e : Ends α) {index : Nat} (h : index < 2) :
    ∃ a, e.get? index = some a :=
  ⟨_, List.getElem?_eq_getElem h⟩

end QueryViews
