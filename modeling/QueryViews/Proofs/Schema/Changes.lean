import QueryViews.Proofs.Schema.Verified

/-!
# What a declaration changes

A declaration changes one of the three sides of a schema and leaves the other two alone. What it
makes of the side, and which id it issues for that, is said once: of the conceptual side by
`Conceptual.Extends`, of the store side by `Store.Extends`, and of the whole schema by
`Schema.Change`. Nothing else that is known of declarations opens them up again: it follows from
`Schema.change_of_declare` by cases.

In all of it no conceptual container ever gets a second entry in the mapping (`Mapping.Keyed`).
-/

namespace QueryViews

/-! ## The conceptual side -/

namespace Conceptual

/-- The side with another type in the place of one that is there. -/
def setModel (c : Conceptual) (id : ModelId) (m : Model) : Conceptual :=
  { c with models := c.models.set id.index m }

/-- The side with another relationship in the place of one that is there. -/
def setAssociation (c : Conceptual) (id : AssociationId) (a : Association) : Conceptual :=
  { c with associations := c.associations.set id.index a }

/-- The side with another container in the place of one that is there. -/
def setContainer (c : Conceptual) (id : ContainerId) (owner : Container) : Conceptual :=
  { c with containers := c.containers.set id.index owner }

/-- What a declaration makes of the conceptual side, and the id that it issues. -/
inductive Extends (c : Conceptual) : Declaration → Conceptual → Issued → Prop
  | entity (name : String) :
    Extends c (.entity name)
      { c with models := c.models ++ [⟨name, [], .entity ⟨none, false, []⟩⟩] }
      (.model ⟨c.models.length⟩)
  | derivedEntity (name : String) (base : ModelId) :
    Extends c (.derivedEntity name base)
      { c with models := c.models ++ [⟨name, [], .entity ⟨some base, false, []⟩⟩] }
      (.model ⟨c.models.length⟩)
  | embedded (name : String) :
    Extends c (.embedded name) { c with models := c.models ++ [⟨name, [], .embedded⟩] }
      (.model ⟨c.models.length⟩)
  | markAbstract {id : ModelId} {m : Model} {e : EntityType} (hm : c.model id = .ok m)
    (he : m.entity? = some e) :
    Extends c (.markAbstract id)
      (c.setModel id { m with kind := .entity { e with isAbstract := true } }) .nothing
  | field {role : FieldRole} {id : ModelId} {m : Model} (hm : c.model id = .ok m)
    (hrole : role ≠ .key) (name : String) (type : ScalarType) :
    Extends c (.field role id name type)
      (c.setModel id { m with
        fields := m.fields ++ [⟨name, .scalar type, role = .nullable, role = .token⟩] })
      (.field ⟨id, m.fields.length⟩)
  /-- a key field comes behind the fields of the type, and behind those of its key -/
  | keyField {id : ModelId} {m : Model} {e : EntityType} (hm : c.model id = .ok m)
    (he : m.entity? = some e) (name : String) (type : ScalarType) :
    Extends c (.field .key id name type)
      (c.setModel id { m with
        fields := m.fields ++ [⟨name, .scalar type, false, false⟩]
        kind := .entity { e with key := e.key ++ [⟨id, m.fields.length⟩] } })
      (.field ⟨id, m.fields.length⟩)
  | embeddedField {id : ModelId} {m : Model} (hm : c.model id = .ok m) (name : String)
    (target : ModelId) :
    Extends c (.embeddedField id name target)
      (c.setModel id { m with fields := m.fields ++ [⟨name, .embedded target, false, false⟩] })
      (.field ⟨id, m.fields.length⟩)
  | navigation {id : ModelId} {m : Model} (hm : c.model id = .ok m) (name : String)
    (association : AssociationId) (near : Nat) :
    Extends c (.navigation id name association near)
      (c.setModel id { m with
        fields := m.fields ++ [⟨name, .navigation association near (1 - near), false, false⟩] })
      (.field ⟨id, m.fields.length⟩)
  /-- ends are named after their types, and told apart if the types have the same name -/
  | association {first second : ModelId × Multiplicity} {m₁ m₂ : Model}
    (h₁ : c.model first.1 = .ok m₁) (h₂ : c.model second.1 = .ok m₂) (name : String) :
    Extends c (.association name first second)
      { c with associations := c.associations ++ [⟨name, ⟨⟨m₁.name, first.1, first.2⟩,
        ⟨if m₁.name = m₂.name then m₂.name ++ "1" else m₂.name, second.1, second.2⟩⟩, [], false,
        false⟩] }
      (.association ⟨c.associations.length⟩)
  | foreignKey {id : AssociationId} {a : Association} (ha : c.association id = .ok a)
    (principal : Nat) (fields : List ForeignKeyField) :
    Extends c (.foreignKey id principal fields)
      (c.setAssociation id { a with
        constraints := a.constraints ++ [⟨principal, if principal = 0 then 1 else 0, fields⟩]
        isForeignKey := true })
      .nothing
  | markAssociationAbstract {id : AssociationId} {a : Association}
    (ha : c.association id = .ok a) :
    Extends c (.markAssociationAbstract id) (c.setAssociation id { a with isAbstract := true })
      .nothing
  | container (name : String) :
    Extends c (.container name) { c with containers := c.containers ++ [⟨name, [], []⟩] }
      (.container ⟨c.containers.length⟩)
  | entitySet {id : ContainerId} {owner : Container} (ho : c.container id = .ok owner)
    (name : String) (model : ModelId) :
    Extends c (.entitySet id name model)
      (c.setContainer id { owner with entitySets := owner.entitySets ++ [⟨name, model⟩] })
      (.entitySet ⟨id, owner.entitySets.length⟩)
  | associationSet {id : ContainerId} {owner : Container} (ho : c.container id = .ok owner)
    (name : String) (association : AssociationId) (ends : Ends EntitySetId) :
    Extends c (.associationSet id name association ends)
      (c.setContainer id { owner with
        associationSets := owner.associationSets ++ [⟨name, association, ends⟩] })
      (.associationSet ⟨id, owner.associationSets.length⟩)

end Conceptual

/-! ## The store side -/

/-- The table with one more column; its key may grow by it. -/
def Table.grown (t : Table) (id : TableId) (role : ColumnRole) (name : String)
    (type : ScalarType) : Table :=
  { t with
    columns := t.columns ++ [⟨name, type, role = .nullable, role = .key⟩]
    key := if role = .key then t.key ++ [⟨id, t.columns.length⟩] else t.key }

/-- What a declaration makes of the store side, and the id that it issues. -/
inductive Store.Extends (st : Store) : Declaration → Store → Issued → Prop
  | container (name : String) :
    Extends st (.storeContainer name)
      { st with containers := st.containers ++ [⟨name, []⟩] } (.store ⟨st.containers.length⟩)
  | table {id : StoreId} {owner : StoreContainer} (h : st.container id = .ok owner)
    (name : String) :
    Extends st (.table id name)
      { tables := st.tables ++ [⟨id, name, [], []⟩]
        containers := st.containers.set id.index
          { owner with tables := owner.tables ++ [⟨st.tables.length⟩] } }
      (.table ⟨st.tables.length⟩)
  | column {id : TableId} {t : Table} (h : st.table id = .ok t) (role : ColumnRole)
    (name : String) (type : ScalarType) :
    Extends st (.column role id name type)
      { st with tables := st.tables.set id.index (t.grown id role name type) }
      (.column ⟨id, t.columns.length⟩)

/-- What is in the key of a table that grew by a column was in it before, or is the new column. -/
theorem Table.of_mem_key_grown {t : Table} {id : TableId} {role : ColumnRole} {name : String}
    {type : ScalarType} {c : ColumnId} (h : c ∈ (t.grown id role name type).key) :
    c ∈ t.key ∨ c = ⟨id, t.columns.length⟩ := by
  rw [grown] at h
  by_cases hrole : role = .key
  · simp only [if_pos hrole, List.mem_append, List.mem_singleton] at h
    exact h
  · simp only [if_neg hrole] at h
    exact .inl h

/-! ## The whole schema -/

namespace Schema

variable {s s' : Schema} {d : Declaration} {i : Issued}

/-- What a declaration makes of a schema, and the id that it issues. -/
inductive Change (s : Schema) : Declaration → Schema → Issued → Prop
  | conceptual {d : Declaration} {c : Conceptual} {i : Issued}
    (h : s.conceptual.Extends d c i) : Change s d { s with conceptual := c } i
  | store {d : Declaration} {st : Store} {i : Issued} (h : s.store.Extends d st i) :
    Change s d { s with store := st } i
  | pair (id : ContainerId) (store : StoreId) :
    Change s (.mapContainers id store) { s with mapping := s.mapping.pair id store } .nothing
  | edit {e : Extent} {edit : MappingEdit} {m : Mapping} (h : s.mapping.edit e edit = .ok m) :
    Change s (.mapExtent e edit) { s with mapping := m } .nothing

/-- Adding a field puts it behind those that the type has. -/
theorem exists_of_addField {id : ModelId} {f : Field} {field : FieldId}
    (h : s.addField id f = .ok (s', field)) : ∃ m, s.conceptual.model id = .ok m ∧
      s' = { s with conceptual := s.conceptual.setModel id { m with fields := m.fields ++ [f] } } ∧
      field = ⟨id, m.fields.length⟩ := by
  obtain ⟨m, hm, hr⟩ := bind_eq_ok_iff.1 h
  cases hr
  exact ⟨m, hm, rfl, rfl⟩

/-- Editing an entity type changes nothing else of the type. -/
theorem exists_of_editEntity {id : ModelId} {edit : EntityType → EntityType}
    (h : s.editEntity id edit = .ok s') : ∃ m e, s.conceptual.model id = .ok m ∧
      m.entity? = some e ∧ s' = { s with
        conceptual := s.conceptual.setModel id { m with kind := .entity (edit e) } } := by
  obtain ⟨m, hm, h⟩ := bind_eq_ok_iff.1 h
  obtain ⟨e, he, hr⟩ := bind_eq_ok_iff.1 h
  cases hr
  exact ⟨m, e, hm, found_eq_ok_iff.1 he, rfl⟩

/-- Editing a relationship replaces it in its place. -/
theorem exists_of_editAssociation {id : AssociationId} {edit : Association → Association}
    (h : s.editAssociation id edit = .ok s') : ∃ a, s.conceptual.association id = .ok a ∧
      s' = { s with conceptual := s.conceptual.setAssociation id (edit a) } := by
  obtain ⟨a, ha, hr⟩ := bind_eq_ok_iff.1 h
  cases hr
  exact ⟨a, ha, rfl⟩

/-- A field of a primitive type is added, and if it is a key field, then to the key as well. -/
theorem extends_of_addScalarField {role : FieldRole} {id : ModelId} {name : String}
    {type : ScalarType} (h : s.addScalarField role id name type = .ok (s', i)) :
    ∃ c, s' = { s with conceptual := c } ∧
      s.conceptual.Extends (.field role id name type) c i := by
  obtain ⟨⟨s₁, field⟩, hadd, h⟩ := bind_eq_ok_iff.1 h
  obtain ⟨m, hm, rfl, rfl⟩ := exists_of_addField hadd
  simp only at h
  by_cases hrole : role = .key
  · rw [if_pos hrole] at h
    obtain ⟨s₂, hedit, hr⟩ := bind_eq_ok_iff.1 h
    obtain ⟨m', e, hm', he, rfl⟩ := exists_of_editEntity hedit
    cases hr
    -- the type that is edited is the one that has just got the field
    have hlt := (List.getElem?_eq_some_iff.1 (found_eq_ok_iff.1 hm)).1
    have hfound := (List.getElem?_set_self hlt).symm.trans (found_eq_ok_iff.1 hm')
    obtain rfl := Option.some.inj hfound
    subst hrole
    refine ⟨_, rfl, ?_⟩
    have hext := Conceptual.Extends.keyField hm he name type
    rwa [Conceptual.setModel, ← List.set_set] at hext
  · rw [if_neg hrole] at h
    cases h
    exact ⟨_, rfl, .field hm hrole name type⟩

/-- All that a declaration does: it changes one side of the schema. -/
theorem change_of_declare (h : s.declare d = .ok (s', i)) : s.Change d s' i := by
  cases d with
  -- one case for each declaration: what it looks up is what its constructor asks for
  | entity name =>
    cases h
    exact .conceptual (.entity name)
  | derivedEntity name base =>
    cases h
    exact .conceptual (.derivedEntity name base)
  | embedded name =>
    cases h
    exact .conceptual (.embedded name)
  | markAbstract model =>
    obtain ⟨s₁, hedit, hr⟩ := bind_eq_ok_iff.1 h
    obtain ⟨m, e, hm, he, rfl⟩ := exists_of_editEntity hedit
    cases hr
    exact .conceptual (.markAbstract hm he)
  | field role model name type =>
    obtain ⟨c, rfl, hext⟩ := extends_of_addScalarField h
    exact .conceptual hext
  | embeddedField model name target =>
    obtain ⟨⟨s₁, field⟩, hadd, hr⟩ := bind_eq_ok_iff.1 h
    obtain ⟨m, hm, rfl, rfl⟩ := exists_of_addField hadd
    cases hr
    exact .conceptual (.embeddedField hm name target)
  | navigation model name association near =>
    obtain ⟨⟨s₁, field⟩, hadd, hr⟩ := bind_eq_ok_iff.1 h
    obtain ⟨m, hm, rfl, rfl⟩ := exists_of_addField hadd
    cases hr
    exact .conceptual (.navigation hm name association near)
  | association name first second =>
    obtain ⟨ends, hends, hr⟩ := bind_eq_ok_iff.1 h
    obtain ⟨m₁, h₁, hends⟩ := bind_eq_ok_iff.1 hends
    obtain ⟨m₂, h₂, hends⟩ := bind_eq_ok_iff.1 hends
    cases hends
    cases hr
    exact .conceptual (.association h₁ h₂ name)
  | foreignKey association principal fields =>
    obtain ⟨s₁, hedit, hr⟩ := bind_eq_ok_iff.1 h
    obtain ⟨a, ha, rfl⟩ := exists_of_editAssociation hedit
    cases hr
    exact .conceptual (.foreignKey ha principal fields)
  | markAssociationAbstract association =>
    obtain ⟨s₁, hedit, hr⟩ := bind_eq_ok_iff.1 h
    obtain ⟨a, ha, rfl⟩ := exists_of_editAssociation hedit
    cases hr
    exact .conceptual (.markAssociationAbstract ha)
  | container name =>
    cases h
    exact .conceptual (.container name)
  | entitySet id name model =>
    obtain ⟨owner, ho, hr⟩ := bind_eq_ok_iff.1 h
    cases hr
    exact .conceptual (.entitySet ho name model)
  | associationSet id name association ends =>
    obtain ⟨owner, ho, hr⟩ := bind_eq_ok_iff.1 h
    cases hr
    exact .conceptual (.associationSet ho name association ends)
  | storeContainer name =>
    cases h
    exact .store (.container name)
  | table id name =>
    obtain ⟨owner, ho, hr⟩ := bind_eq_ok_iff.1 h
    cases hr
    exact .store (.table ho name)
  | column role id name type =>
    obtain ⟨t, ht, hr⟩ := bind_eq_ok_iff.1 h
    cases hr
    exact .store (.column ht role name type)
  | mapContainers id store =>
    cases h
    exact .pair id store
  | mapExtent e edit =>
    obtain ⟨m, hm, hr⟩ := bind_eq_ok_iff.1 h
    cases hr
    exact .edit hm

/-- What holds of the conceptual side holds after a declaration, if it survives extending it. -/
theorem Change.conceptual_induction {P : Conceptual → Prop} (h : s.Change d s' i)
    (hP : P s.conceptual) (hext : ∀ {c}, s.conceptual.Extends d c i → P c) : P s'.conceptual := by
  cases h with
  | conceptual h => exact hext h
  | store | pair | edit => exact hP

/-- What holds of the store side holds after a declaration, if it survives extending it. -/
theorem Change.store_induction {P : Store → Prop} (h : s.Change d s' i) (hP : P s.store)
    (hext : ∀ {st}, s.store.Extends d st i → P st) : P s'.store := by
  cases h with
  | store h => exact hext h
  | conceptual | pair | edit => exact hP

end Schema

/-! ## Entries of the mapping -/

namespace Mapping

variable {m m' : Mapping}

/-- The containers that are paired with a store container, in the order in which they were. -/
def paired (m : Mapping) : List ContainerId := m.containers.map ContainerMapping.conceptual

/-- Entries may be replaced by others of the same containers. -/
theorem paired_map {f : ContainerMapping → ContainerMapping}
    (hid : ∀ c, (f c).conceptual = c.conceptual) :
    (⟨m.containers.map f⟩ : Mapping).paired = m.paired := by
  rw [paired, List.map_map]
  exact List.map_congr_left fun c _ => hid c

/-- The containers that are paired are those that have an entry. -/
theorem mem_paired_iff {id : ContainerId} : id ∈ m.paired ↔ ∃ c, m.container? id = some c := by
  simp [container?, paired, ← Option.isSome_iff_exists, List.find?_isSome]

/-- A container that is paired anew keeps its place. -/
theorem paired_pair (m : Mapping) (id : ContainerId) (store : StoreId) :
    (m.pair id store).paired = if id ∈ m.paired then m.paired else m.paired ++ [id] := by
  unfold pair
  cases hid : m.container? id with
  | some c =>
    rw [if_pos (mem_paired_iff.2 ⟨c, hid⟩)]
    exact paired_map fun other => by by_cases heq : other.conceptual = id <;> simp [heq]
  | none =>
    have hnew : id ∉ m.paired := fun hmem => by
      obtain ⟨c, hc⟩ := mem_paired_iff.1 hmem
      cases hid.symm.trans hc
    rw [if_neg hnew, paired, List.map_append]
    rfl

/-- An edit of a mapping pairs no container. -/
theorem paired_edit {e : Extent} {edit : MappingEdit} (h : m.edit e edit = .ok m') :
    m'.paired = m.paired := by
  cases e with
  | table id => cases h
  | entitySet set | associationSet set =>
    obtain ⟨c, -, hr⟩ := bind_eq_ok_iff.1 h
    cases hr
    exact paired_map fun other => by split <;> rfl

/-- No container has two entries. -/
def Keyed (m : Mapping) : Prop := (m.containers.map ContainerMapping.conceptual).Nodup

/-- A container that is paired anew takes the place of its old entry. -/
theorem Keyed.pair (h : m.Keyed) (id : ContainerId) (store : StoreId) :
    (m.pair id store).Keyed := by
  change (m.pair id store).paired.Nodup
  rw [paired_pair]
  split
  · exact h
  · rename_i hid
    exact List.nodup_append.2 ⟨h, List.nodup_singleton id, fun a ha b hb heq =>
      hid (List.mem_singleton.1 hb ▸ heq ▸ ha)⟩

/-- An edit stays within its entry. -/
theorem Keyed.edit (h : m.Keyed) {e : Extent} {edit : MappingEdit}
    (hedit : m.edit e edit = .ok m') : m'.Keyed := by
  change m'.paired.Nodup
  rw [paired_edit hedit]
  exact h

end Mapping

/-- Whatever is declared, no container gets a second entry. -/
theorem Schema.Change.keyed {s s' : Schema} {d : Declaration} {i : Issued} (h : s.Change d s' i)
    (hm : s.mapping.Keyed) : s'.mapping.Keyed := by
  cases h with
  | conceptual | store => exact hm
  | pair id store => exact hm.pair id store
  | edit h => exact hm.edit h

end QueryViews
