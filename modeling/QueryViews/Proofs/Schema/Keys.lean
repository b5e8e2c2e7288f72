import QueryViews.Proofs.Schema.Models

/-!
# Keys and what refers to them

A key is made of fields that its type declares itself: no check asks for it, it is so because of
the way in which schemas are put together (`Built.ownsKeys`). What is checked is that a foreign
key lines up with the key of its principal (`ForeignKey.LinesUp`): as many pairs as the key has
fields, no target twice and none outside the key. Hence the targets are the key in some order, and
each key field has its source (`ForeignKey.LinesUp.sourceFields`).
-/

namespace QueryViews

/-! ## Keys are made of own fields -/

/-- Every key is made of fields that its own type declares. -/
def Conceptual.OwnsKeys (c : Conceptual) : Prop :=
  ∀ id m, c.model id = .ok m → m.OwnsKey id

namespace Schema

variable {s : Schema}

/-- In a schema that was put together by declarations, keys are made of own fields. -/
theorem Built.ownsKeys (hs : s.Built) : s.conceptual.OwnsKeys :=
  fun id m hm => (hs.declared id m hm).ownsKey

/-- A key field of a type is declared by the root above it. -/
theorem Built.exists_root_of_mem_key (hs : s.Built) {id : ModelId} {key : List FieldId}
    (h : s.conceptual.keyFields id = .ok key) {f : FieldId} (hf : f ∈ key) :
    s.conceptual.root id = .ok f.model ∧ ∃ declared, s.conceptual.field f = .ok declared := by
  obtain ⟨root, hroot, h⟩ := bind_eq_ok_iff.1 h
  obtain ⟨m, hm, hr⟩ := bind_eq_ok_iff.1 h
  cases hr
  cases he : m.entity? with
  | none =>
    rw [he] at hf
    cases hf
  | some e =>
    rw [he] at hf
    obtain ⟨rfl, hdeclared⟩ :=
      Conceptual.exists_field_of_mem hm (hs.ownsKeys root m hm e he f hf)
    exact ⟨hroot, hdeclared⟩

/-- A key field of a type is a field of the type. -/
theorem Built.keyFields_assignable (hs : s.Built) {id : ModelId} {key : List FieldId}
    (h : s.conceptual.keyFields id = .ok key) :
    ∀ f ∈ key, s.conceptual.isAssignable id f.model = .ok true :=
  fun _ hf => Conceptual.isAssignable_root (hs.exists_root_of_mem_key h hf).1

end Schema

/-! ## Foreign keys line up with keys -/

/-- A relationship is encoded by its constraint if it says so and has no other one. -/
theorem Association.foreignKey?_eq_some_iff {a : Association} {fk : ForeignKey} :
    a.foreignKey? = some fk ↔ a.isForeignKey = true ∧ a.constraints = [fk] := by
  rw [foreignKey?]
  split
  · rename_i hone
    rw [hone, List.cons.injEq, eq_self, and_true]
    cases a.isForeignKey <;> simp
  · rename_i hmany
    exact ⟨nofun, fun h => absurd h.2 (hmany fk)⟩

/-- The foreign key of a relationship is one of its constraints. -/
theorem Association.mem_of_foreignKey? {a : Association} {fk : ForeignKey}
    (h : a.foreignKey? = some fk) : fk ∈ a.constraints :=
  (foreignKey?_eq_some_iff.1 h).2 ▸ List.mem_singleton_self fk

/-- The ends of the foreign key are different, each field of the principal's key is the target of
one pair, and each source is a field of the dependent type or of a type above it. -/
structure ForeignKey.LinesUp (c : Conceptual) (fk : ForeignKey) (dependent : ModelId)
    (key : List FieldId) : Prop where
  apart : fk.principal ≠ fk.dependent
  targets : (fk.fields.map ForeignKeyField.target).Perm key
  nodup : key.Nodup
  sources : ∀ pair ∈ fk.fields, c.isAssignable dependent pair.source.model = .ok true

namespace Schema

variable {s : Schema}

/-- What the pairs of a constraint are checked for, one after the other. -/
theorem checked_of_checkPairs {name : String} {dependent : ModelId} {key seen : List FieldId}
    {pairs : List ForeignKeyField} (h : s.checkPairs name dependent key seen pairs = .ok ()) :
    (pairs.map ForeignKeyField.target).Nodup ∧ ∀ pair ∈ pairs, pair.target ∉ seen ∧
      pair.target ∈ key ∧ s.conceptual.isAssignable dependent pair.source.model = .ok true := by
  -- each target joins those that were seen, so no later pair has it
  induction pairs generalizing seen with
  | nil => exact ⟨List.nodup_nil, fun _ hp => by cases hp⟩
  | cons pair rest ih =>
    rw [checkPairs] at h
    split at h
    · cases h
    · rename_i hseen
      split at h
      · cases h
      · rename_i hkey
        obtain ⟨b, hb, h⟩ := bind_eq_ok_iff.1 h
        cases b with
        | false => cases h
        | true =>
          obtain ⟨hnodup, hrest⟩ := ih h
          refine ⟨List.nodup_cons.2 ⟨fun hmem => ?_, hnodup⟩, List.forall_mem_cons.2
            ⟨⟨hseen, not_not.1 hkey, lift_eq_ok_iff.1 hb⟩, fun p hp => ?_⟩⟩
          · obtain ⟨p, hp, heq⟩ := List.mem_map.1 hmem
            exact (hrest p hp).1 (heq ▸ List.mem_cons_self)
          · obtain ⟨hp₁, hp₂⟩ := hrest p hp
            exact ⟨fun hmem => hp₁ (List.mem_cons_of_mem _ hmem), hp₂⟩

/-- A constraint has a principal and a dependent end and lines up with the key of the principal.
As many different targets as the key has fields, all of them in the key, are the whole key. -/
theorem Verified.linesUp (hv : s.Verified) {a : Association} (ha : a ∈ s.conceptual.associations)
    {fk : ForeignKey} (hfk : fk ∈ a.constraints) :
    ∃ principal dependent key, a.ends.get? fk.principal = some principal ∧
      a.ends.get? fk.dependent = some dependent ∧
      s.conceptual.keyFields principal.model = .ok key ∧
      fk.LinesUp s.conceptual dependent.model key := by
  obtain ⟨-, -, hconstraints⟩ := bind_eq_ok_iff.1 (forM_eq_ok_iff.1 hv.associations a ha)
  have h := forM_eq_ok_iff.1 hconstraints fk hfk
  rw [checkConstraint] at h
  split at h
  · rename_i principal dependent hprincipal hdependent
    split at h
    · cases h
    · rename_i hne
      obtain ⟨key, hkey, h⟩ := bind_eq_ok_iff.1 h
      simp only at h
      split at h
      · cases h
      · rename_i hlength
        obtain ⟨hnodup, hpairs⟩ := checked_of_checkPairs h
        have hsubset : fk.fields.map ForeignKeyField.target ⊆ key := fun t ht => by
          obtain ⟨pair, hpair, rfl⟩ := List.mem_map.1 ht
          exact (hpairs pair hpair).2.1
        -- targets that are different and among the key fields, and as many as those, are all of
        -- them
        have hperm : (fk.fields.map ForeignKeyField.target).Perm key := by
          refine (hnodup.subperm hsubset).perm_of_length_le ?_
          rw [List.length_map]
          exact (not_not.1 hlength).ge
        exact ⟨principal, dependent, key, hprincipal, hdependent, lift_eq_ok_iff.1 hkey, hne,
          hperm, hperm.nodup_iff.1 hnodup, fun pair hpair => (hpairs pair hpair).2.2⟩
  · cases h

/-! ## Sets can hold what they are bound to -/

/-- Each association set of a verified schema passed its check. -/
theorem Verified.checkAssociationSet (hv : s.Verified) {id : AssociationSetId}
    {set : AssociationSet} {owner : Container}
    (howner : s.conceptual.container id.container = .ok owner)
    (hset : owner.associationSets[id.index]? = some set) :
    s.checkAssociationSet id.container owner set = .ok () := by
  have h := forM_eq_ok_iff.1 hv.associationSets (owner, id.container.index)
    (List.mk_mem_zipIdx_iff_getElem?.2 (found_eq_ok_iff.1 howner))
  exact forM_eq_ok_iff.1 h set (List.mem_of_getElem? hset)

/-- An entity set that is bound to an end is of the same container and can hold the type at the
end. -/
theorem Verified.bound_end (hv : s.Verified) {id : AssociationSetId} {set : AssociationSet}
    {a : Association} (hset : s.conceptual.associationSet id = .ok set)
    (ha : s.conceptual.association set.association = .ok a) {index : Nat} {bound : EntitySetId}
    {e : AssociationEnd} (hbound : set.ends.get? index = some bound)
    (he : a.ends.get? index = some e) : bound.container = id.container ∧
      ∃ element, s.elementType bound = .ok element ∧
        s.conceptual.isAssignable e.model element = .ok true := by
  obtain ⟨owner, howner, hset⟩ := bind_eq_ok_iff.1 hset
  have h := hv.checkAssociationSet howner (found_eq_ok_iff.1 hset)
  obtain ⟨a', ha', h⟩ := bind_eq_ok_iff.1 h
  cases ha.symm.trans (lift_eq_ok_iff.1 ha')
  -- entity sets and ends are checked in pairs, place by place
  have hmem : (bound, e) ∈ set.ends.toList.zip a.ends.toList :=
    List.mem_of_getElem? (List.getElem?_zip_eq_some.2 ⟨hbound, he⟩)
  have h := forM_eq_ok_iff.1 h (bound, e) hmem
  simp only at h
  split at h
  · cases h
  · rename_i hown
    obtain ⟨element, helement, h⟩ := bind_eq_ok_iff.1 h
    obtain ⟨b, hb, h⟩ := bind_eq_ok_iff.1 h
    refine ⟨not_not.1 hown, element, lift_eq_ok_iff.1 helement, ?_⟩
    cases b with
    | true => exact lift_eq_ok_iff.1 hb
    | false =>
      obtain ⟨type, -, h⟩ := bind_eq_ok_iff.1 h
      cases h

/-- An entity set that is bound to an end can hold the type at the end. -/
theorem Verified.holds_end (hv : s.Verified) {id : AssociationSetId} {set : AssociationSet}
    {a : Association} (hset : s.conceptual.associationSet id = .ok set)
    (ha : s.conceptual.association set.association = .ok a) {index : Nat} {bound : EntitySetId}
    {e : AssociationEnd} (hbound : set.ends.get? index = some bound)
    (he : a.ends.get? index = some e) : ∃ element, s.elementType bound = .ok element ∧
      s.conceptual.isAssignable e.model element = .ok true :=
  (hv.bound_end hset ha hbound he).2

end Schema

end QueryViews
