import QueryViews.Closure.Hash
import QueryViews.Proofs.Schema.Links

/-!
# When a mapped container has a hash

The content of a pair of containers names everything that is referred to, so it takes that every id
in it resolves. Those that are checked do (`Schema.Built.resolves`); what is left are the ids that
are followed on trust (`Schema.Followed`): the conceptual side itself, the element types of its
sets, the sources of the foreign keys in its closure, and the ids in the mappings of its extents. A
mapped container has a hash exactly if these resolve (`Schema.Built.exists_compute_iff`).
-/

namespace QueryViews.Schema

variable {s : Schema}

/-! ## Names -/

/-- A type has a name if it is there. -/
theorem exists_modelName_iff {id : ModelId} :
    (∃ n, s.modelName id = .ok n) ↔ (Link.model id).Resolves s := by
  simp only [modelName, exists_bind_eq_ok_iff, exists_pure_eq_ok, and_true, Link.Resolves]

theorem exists_fieldName_iff {id : FieldId} :
    (∃ n, s.fieldName id = .ok n) ↔ (Link.field id).Resolves s := by
  simp only [fieldName, exists_bind_eq_ok_iff, exists_pure_eq_ok, and_true, exists_and_right,
    exists_modelName_iff, Link.Resolves]
  refine and_iff_right_of_imp ?_
  rintro ⟨f, hf⟩
  obtain ⟨m, hm, -⟩ := Conceptual.field_eq_ok_iff.1 hf
  exact ⟨m, hm⟩

theorem exists_columnName_iff {id : ColumnId} :
    (∃ n, s.columnName id = .ok n) ↔ (Link.column id).Resolves s := by
  simp only [columnName, exists_bind_eq_ok_iff, exists_pure_eq_ok, and_true, exists_and_right,
    Link.Resolves]
  refine and_iff_right_of_imp ?_
  rintro ⟨c, hc⟩
  obtain ⟨t, ht, -⟩ := bind_eq_ok_iff.1 hc
  exact ⟨t, ht⟩

theorem exists_associationName_iff {id : AssociationId} :
    (∃ n, s.associationName id = .ok n) ↔ (Link.association id).Resolves s := by
  simp only [associationName, exists_bind_eq_ok_iff, exists_pure_eq_ok, and_true,
    Link.Resolves]

theorem exists_endName_iff {id : EndId} :
    (∃ n, s.endName id = .ok n) ↔ (Link.associationEnd id).Resolves s := by
  simp only [endName, exists_bind_eq_ok_iff, exists_pure_eq_ok, and_true, exists_and_right,
    exists_associationName_iff, Link.Resolves]
  refine and_iff_right_of_imp ?_
  rintro ⟨e, he⟩
  obtain ⟨a, ha, -⟩ := bind_eq_ok_iff.1 he
  exact ⟨a, ha⟩

/-! ## The mapping of an extent -/

/-- A binding can be told if its field and its column are there. -/
theorem exists_bindingContent_iff {b : ColumnBinding} :
    (∃ c, s.bindingContent b = .ok c) ↔ ∀ r ∈ b.links, r.Resolves s := by
  simp only [bindingContent, exists_bind_eq_ok_iff, exists_pure_eq_ok, and_true, exists_and_right,
    exists_fieldName_iff, exists_columnName_iff, ColumnBinding.links, List.forall_mem_cons,
    List.not_mem_nil, false_imp_iff, implies_true]

mutual

/-- A property can be told if all that it refers to at any depth is there. -/
theorem exists_propertyContent_iff : ∀ p : PropertyMapping,
    (∃ c, s.propertyContent p = .ok c) ↔ ∀ r ∈ p.links, r.Resolves s
  | .scalar b => by
    rw [PropertyMapping.links, ← exists_bindingContent_iff]
    simp only [propertyContent, bindingContent, exists_bind_eq_ok_iff, exists_pure_eq_ok]
  | .embedded field properties => by
    simp only [propertyContent, exists_bind_eq_ok_iff, exists_pure_eq_ok, and_true,
      exists_and_right, exists_fieldName_iff, exists_propertyContents_iff properties,
      PropertyMapping.links, List.forall_mem_cons]
  | .ends id bindings => by
    simp only [propertyContent, exists_bind_eq_ok_iff, exists_pure_eq_ok, and_true,
      exists_and_right, exists_endName_iff, exists_mapM_eq_ok_iff, exists_bindingContent_iff,
      PropertyMapping.links, List.forall_mem_cons, List.forall_mem_flatMap]

theorem exists_propertyContents_iff : ∀ ps : List PropertyMapping,
    (∃ cs, s.propertyContents ps = .ok cs) ↔
      ∀ r ∈ PropertyMapping.linksAll ps, r.Resolves s
  | [] => by simp [propertyContents, PropertyMapping.linksAll]
  | p :: rest => by
    simp only [propertyContents, exists_bind_eq_ok_iff, exists_pure_eq_ok, and_true,
      exists_and_right, exists_propertyContent_iff p, exists_propertyContents_iff rest,
      PropertyMapping.linksAll, List.forall_mem_append]

end

/-- A condition can be told if what it is about is there. -/
theorem exists_conditionContent_iff {c : Condition} :
    (∃ k, s.conditionContent c = .ok k) ↔ c.target.link.Resolves s := by
  simp only [conditionContent, exists_bind_eq_ok_iff, exists_pure_eq_ok, and_true]
  cases c.target with
  | field id =>
    simp only [targetContent, exists_bind_eq_ok_iff, exists_pure_eq_ok, and_true,
      exists_fieldName_iff, ConditionTarget.link]
  | column id =>
    simp only [targetContent, exists_bind_eq_ok_iff, exists_pure_eq_ok, and_true,
      exists_columnName_iff, ConditionTarget.link]

/-- A fragment over a table can be told if all that its properties and conditions refer to is
there. -/
theorem exists_fragmentContent_iff {f : Fragment} (ht : ∃ t, s.store.table f.table = .ok t) :
    (∃ c, s.fragmentContent f = .ok c) ↔ ∀ r ∈ f.links, r.Resolves s := by
  simp only [fragmentContent, exists_bind_eq_ok_iff, exists_pure_eq_ok, and_true, exists_and_right,
    ht, true_and, exists_propertyContents_iff, exists_mapM_eq_ok_iff, exists_conditionContent_iff,
    Fragment.links, List.forall_mem_append, List.forall_mem_map]

/-- A mapping of types can be told if the types are there and the fragments can be told. -/
theorem exists_typeMappingContent_iff {m : TypeMapping}
    (ht : ∀ f ∈ m.fragments, ∃ t, s.store.table f.table = .ok t) :
    (∃ c, s.typeMappingContent m = .ok c) ↔ ∀ r ∈ m.links, r.Resolves s := by
  have hfragments : (∀ f ∈ m.fragments, ∃ c, s.fragmentContent f = .ok c) ↔
      ∀ f ∈ m.fragments, ∀ r ∈ f.links, r.Resolves s :=
    forall₂_congr fun f hf => exists_fragmentContent_iff (ht f hf)
  simp only [typeMappingContent, exists_bind_eq_ok_iff, exists_pure_eq_ok, and_true,
    exists_and_right, exists_mapM_eq_ok_iff, exists_modelName_iff, hfragments,
    TypeMapping.links, List.forall_mem_append, List.forall_mem_map, List.forall_mem_flatMap,
    and_assoc]

/-- What a parameter is taken from can be told if it is there. -/
theorem exists_memberContent_iff {m : ParameterMember} :
    (∃ c, s.memberContent m = .ok c) ↔ ∀ r ∈ m.links, r.Resolves s := by
  cases m with
  | path fields =>
    simp only [memberContent, exists_bind_eq_ok_iff, exists_pure_eq_ok, and_true,
      exists_mapM_eq_ok_iff, exists_fieldName_iff, ParameterMember.links, List.forall_mem_map]
  | farEnd id field =>
    simp only [memberContent, exists_bind_eq_ok_iff, exists_pure_eq_ok, and_true, exists_and_right,
      exists_endName_iff, exists_fieldName_iff, ParameterMember.links, List.forall_mem_cons,
      List.not_mem_nil, false_imp_iff, implies_true]

/-- A function can be told if its type is there and its parameters can be told. -/
theorem exists_functionContent_iff {f : FunctionMapping} :
    (∃ c, s.functionContent f = .ok c) ↔ ∀ r ∈ f.links, r.Resolves s := by
  simp only [functionContent, parameterContent, exists_bind_eq_ok_iff, exists_pure_eq_ok, and_true,
    exists_and_right, exists_modelName_iff, exists_mapM_eq_ok_iff, exists_memberContent_iff,
    FunctionMapping.links, List.forall_mem_cons, List.forall_mem_flatMap]

/-- The view of a type can be told if the type is there. -/
theorem exists_typeViewContent_iff {v : TypeView} :
    (∃ c, s.typeViewContent v = .ok c) ↔ (Link.model v.type).Resolves s := by
  simp only [typeViewContent, exists_bind_eq_ok_iff, exists_pure_eq_ok, and_true,
    exists_modelName_iff]

/-- What an extent mapping says can be told by name exactly if all that it refers to is there. -/
theorem exists_extentContent_iff {m : ExtentMapping} (hname : ∃ n, s.extentName m.extent = .ok n)
    (ht : ∀ f ∈ m.fragments, ∃ t, s.store.table f.table = .ok t) :
    (∃ c, s.extentContent m = .ok c) ↔ ∀ r ∈ m.links, r.Resolves s := by
  have htypes : (∀ t ∈ m.typeMappings, ∃ c, s.typeMappingContent t = .ok c) ↔
      ∀ t ∈ m.typeMappings, ∀ r ∈ t.links, r.Resolves s :=
    forall₂_congr fun t htypes => exists_typeMappingContent_iff fun f hf =>
      ht f (List.mem_flatMap.2 ⟨t, htypes, hf⟩)
  simp only [extentContent, exists_bind_eq_ok_iff, exists_pure_eq_ok, and_true, exists_and_right,
    hname, true_and, exists_mapM_eq_ok_iff, exists_typeViewContent_iff, htypes,
    exists_functionContent_iff, ExtentMapping.links, List.forall_mem_append,
    List.forall_mem_map, List.forall_mem_flatMap, and_assoc]

/-! ## Types, relationships and sets -/

/-- Every type can be told by name: all that it refers to is checked. -/
theorem Built.exists_typeContent (hs : s.Built) {id : ModelId} {m : Model}
    (hm : s.conceptual.model id = .ok m) : ∃ t, s.typeContent id = .ok t := by
  -- bases and keys were checked, or were issued with the type
  obtain ⟨kind, hkind⟩ : ∃ kind, s.kindContent m.kind = .ok kind := by
    cases hkind : m.kind with
    | embedded => exact ⟨_, rfl⟩
    | entity e =>
      have he : m.entity? = some e := by rw [Model.entity?, hkind]
      obtain ⟨key, hkey⟩ : ∃ key, e.key.mapM s.fieldName = .ok key :=
        exists_mapM_eq_ok fun f hf => exists_fieldName_iff.2 (hs.resolves (.key hm he hf))
      obtain ⟨base, hbase⟩ : ∃ base, e.base.mapM s.modelName = .ok base := by
        cases hbase : e.base with
        | none => exact ⟨none, rfl⟩
        | some base =>
          obtain ⟨n, hn⟩ := exists_modelName_iff.2
            (hs.resolves (.base hm (by rw [Model.base?, he, Option.bind_some, hbase])))
          exact ⟨some n, by rw [Option.mapM_some, hn]; rfl⟩
      exact ⟨_, bind_eq_ok_iff.2 ⟨base, hbase, bind_eq_ok_iff.2 ⟨key, hkey, rfl⟩⟩⟩
  -- so were the types and the associations that fields name
  obtain ⟨fields, hfields⟩ : ∃ fields, m.fields.mapM s.fieldContent = .ok fields := by
    refine exists_mapM_eq_ok fun f hf => ?_
    suffices h : ∃ type, s.fieldTypeContent f.type = .ok type by
      obtain ⟨type, htype⟩ := h
      exact ⟨_, bind_eq_ok_iff.2 ⟨type, htype, rfl⟩⟩
    cases htype : f.type with
    | scalar type => exact ⟨_, rfl⟩
    | embedded target =>
      obtain ⟨n, hn⟩ := exists_modelName_iff.2 (hs.resolves (.embedded hm hf htype))
      exact ⟨_, bind_eq_ok_iff.2 ⟨n, hn, rfl⟩⟩
    | navigation association near far =>
      obtain ⟨n, hn⟩ := exists_associationName_iff.2 (hs.resolves (.navigated hm hf htype))
      exact ⟨_, bind_eq_ok_iff.2 ⟨n, hn, rfl⟩⟩
  exact ⟨_, bind_eq_ok_iff.2 ⟨m, hm, bind_eq_ok_iff.2 ⟨kind, hkind,
    bind_eq_ok_iff.2 ⟨fields, hfields, rfl⟩⟩⟩⟩

/-- A constraint can be told by name exactly if its sources are there: its targets are checked. -/
theorem Built.exists_constraintContent_iff (hs : s.Built) {id : AssociationId} {a : Association}
    (ha : s.conceptual.association id = .ok a) {fk : ForeignKey} (hfk : fk ∈ a.constraints) :
    (∃ c, s.constraintContent fk = .ok c) ↔
      ∀ pair ∈ fk.fields, (Link.field pair.source).Resolves s := by
  simp only [constraintContent, exists_bind_eq_ok_iff, exists_pure_eq_ok, and_true,
    exists_and_right, exists_mapM_eq_ok_iff, exists_fieldName_iff]
  exact forall₂_congr fun pair hpair => and_iff_left (hs.resolves (.target ha hfk hpair))

/-- In a schema that was built only the source fields of constraints can be missing from an
association: the key fields that they refer to were checked. -/
theorem Built.exists_associationContent_iff (hs : s.Built) {id : AssociationId} {a : Association}
    (ha : s.conceptual.association id = .ok a) : (∃ c, s.associationContent id = .ok c) ↔
      ∀ fk ∈ a.constraints, ∀ pair ∈ fk.fields, (Link.field pair.source).Resolves s := by
  have hend {index : Nat} {e : AssociationEnd} (he : a.ends.get? index = some e) :
      ∃ c, s.endContent e = .ok c := by
    obtain ⟨n, hn⟩ := exists_modelName_iff.2 (hs.resolves (.endType ha he))
    exact ⟨_, bind_eq_ok_iff.2 ⟨n, hn, rfl⟩⟩
  have hends : ∃ ends, a.ends.resolve s.endContent = .ok ends := by
    obtain ⟨first, hfirst⟩ := hend (show a.ends.get? 0 = some a.ends.first from rfl)
    obtain ⟨second, hsecond⟩ := hend (show a.ends.get? 1 = some a.ends.second from rfl)
    exact ⟨_, bind_eq_ok_iff.2 ⟨first, hfirst, bind_eq_ok_iff.2 ⟨second, hsecond, rfl⟩⟩⟩
  simp only [associationContent, ha, exists_bind_eq_ok_iff, exists_pure_eq_ok, and_true,
    exists_and_right, Except.ok.injEq, exists_eq_left', hends, true_and, exists_mapM_eq_ok_iff]
  exact forall₂_congr fun fk hfk => hs.exists_constraintContent_iff ha hfk

/-- In a schema that was built every association set can be told. -/
theorem Built.exists_associationSetContent (hs : s.Built) {id : AssociationSetId}
    {set : AssociationSet} (hset : s.conceptual.associationSet id = .ok set) :
    ∃ c, s.associationSetContent set = .ok c := by
  obtain ⟨n, hn⟩ := exists_associationName_iff.2 (hs.resolves (.relationship hset))
  have hbound {index : Nat} {bound : EntitySetId} (hbound : set.ends.get? index = some bound) :
      ∃ name, (do return (← s.conceptual.entitySet bound).name) =
        (.ok name : Except Fault String) := by
    obtain ⟨entitySet, hentitySet⟩ := hs.verified.exists_entitySet hset hbound
    exact ⟨_, bind_eq_ok_iff.2 ⟨entitySet, hentitySet, rfl⟩⟩
  obtain ⟨first, hfirst⟩ := hbound (show set.ends.get? 0 = some set.ends.first from rfl)
  obtain ⟨second, hsecond⟩ := hbound (show set.ends.get? 1 = some set.ends.second from rfl)
  exact ⟨_, bind_eq_ok_iff.2 ⟨n, hn, bind_eq_ok_iff.2 ⟨⟨first, second⟩,
    bind_eq_ok_iff.2 ⟨first, hfirst, bind_eq_ok_iff.2 ⟨second, hsecond, rfl⟩⟩, rfl⟩⟩⟩

/-- An entity set can be told if its type is there. -/
theorem exists_entitySetContent_iff {set : EntitySet} :
    (∃ c, s.entitySetContent set = .ok c) ↔ (Link.model set.model).Resolves s := by
  simp only [entitySetContent, exists_bind_eq_ok_iff, exists_pure_eq_ok, and_true,
    exists_modelName_iff]

/-! ## The pair -/

/-- The ids that the content of a pair follows though no check looks them up. -/
inductive Followed (s : Schema) (m : ContainerMapping) : Link → Prop
  | container : Followed s m (.container m.conceptual)
  | element {id : EntitySetId} {set : EntitySet} (hid : id.container = m.conceptual)
    (hset : s.conceptual.entitySet id = .ok set) : Followed s m (.model set.model)
  | source {owner : Container} {closure : List Element} {id : AssociationId} {a : Association}
    {fk : ForeignKey} {pair : ForeignKeyField}
    (howner : s.conceptual.container m.conceptual = .ok owner)
    (hclosure : s.conceptual.closure owner = .ok closure) (hid : .association id ∈ closure)
    (ha : s.conceptual.association id = .ok a) (hfk : fk ∈ a.constraints)
    (hpair : pair ∈ fk.fields) : Followed s m (.field pair.source)
  | mapped {e : ExtentMapping} {r : Link} (he : e ∈ m.extents) (hr : r ∈ e.links) :
    Followed s m r

/-- What is followed on trust is trusted. -/
theorem Followed.trusted {m : ContainerMapping} (hm : m ∈ s.mapping.containers) {r : Link}
    (h : s.Followed m r) : s.Trusted r := by
  cases h with
  | container => exact .container hm
  | element hid hset => exact .element hset
  | source howner hclosure hid ha hfk hpair => exact .source ha hfk hpair
  | mapped he hr => exact .mapped hm he hr

section Pair

variable {m : ContainerMapping} {owner : Container} {closure : List Element}

/-- The entity sets of a container can be told if the types of all of them are there. -/
theorem exists_entitySetContents_iff (howner : s.conceptual.container m.conceptual = .ok owner) :
    (∃ l, owner.entitySets.mapM s.entitySetContent = .ok l) ↔
      ∀ id set, id.container = m.conceptual → s.conceptual.entitySet id = .ok set →
        (Link.model set.model).Resolves s := by
  simp only [exists_mapM_eq_ok_iff, exists_entitySetContent_iff]
  constructor
  · intro h id set hid hset
    obtain ⟨owner', howner', hindex⟩ := Conceptual.entitySet_eq_ok_iff.1 hset
    rw [hid] at howner'
    cases howner.symm.trans howner'
    exact h set (List.mem_of_getElem? hindex)
  · intro h set hset
    obtain ⟨index, hindex⟩ := List.mem_iff_getElem?.1 hset
    exact h ⟨m.conceptual, index⟩ set rfl
      (Conceptual.entitySet_eq_ok_iff.2 ⟨owner, howner, hindex⟩)

/-- The association sets of a container can be told. -/
theorem Built.exists_associationSetContents (hs : s.Built)
    (howner : s.conceptual.container m.conceptual = .ok owner) :
    ∃ l, owner.associationSets.mapM s.associationSetContent = .ok l := by
  refine exists_mapM_eq_ok fun set hset => ?_
  obtain ⟨index, hindex⟩ := List.mem_iff_getElem?.1 hset
  have hset : s.conceptual.associationSet ⟨m.conceptual, index⟩ = .ok set :=
    Conceptual.associationSet_eq_ok_iff.2 ⟨owner, howner, hindex⟩
  exact hs.exists_associationSetContent hset

/-- The types of a closure can be told: the walk has followed all that they refer to. -/
theorem Built.exists_typeContents (hs : s.Built)
    (hclosure : s.conceptual.closure owner = .ok closure) :
    ∃ l, (closure.filterMap Element.model?).mapM s.typeContent = .ok l := by
  refine exists_mapM_eq_ok fun id hid => ?_
  obtain ⟨e, he, hid⟩ := List.mem_filterMap.1 hid
  cases e with
  | model id' =>
    cases hid
    obtain ⟨t, ht⟩ := Conceptual.exists_model_of_mem_closure hclosure he
    exact hs.exists_typeContent ht
  | association id' => cases hid

/-- The associations of a closure can be told if the source fields of their constraints are
there. -/
theorem Built.exists_associationContents_iff (hs : s.Built)
    (hclosure : s.conceptual.closure owner = .ok closure) :
    (∃ l, (closure.filterMap Element.association?).mapM s.associationContent = .ok l) ↔
      ∀ id a, .association id ∈ closure → s.conceptual.association id = .ok a →
        ∀ fk ∈ a.constraints, ∀ pair ∈ fk.fields, (Link.field pair.source).Resolves s := by
  rw [exists_mapM_eq_ok_iff]
  constructor
  · intro h id a hid ha
    exact (hs.exists_associationContent_iff ha).1 (h id (List.mem_filterMap.2 ⟨_, hid, rfl⟩))
  · intro h id hid
    obtain ⟨e, he, hid⟩ := List.mem_filterMap.1 hid
    cases e with
    | model id' => cases hid
    | association id' =>
      cases hid
      obtain ⟨a, ha⟩ := Conceptual.exists_association_of_mem_closure hclosure he
      exact (hs.exists_associationContent_iff ha).2 (h id a he ha)

/-- What is said about the extents of a pair can be told if all that is referred to is there. -/
theorem Built.exists_extentContents_iff (hs : s.Built) (hm : m ∈ s.mapping.containers) :
    (∃ l, m.extents.mapM s.extentContent = .ok l) ↔
      ∀ e ∈ m.extents, ∀ r ∈ e.links, r.Resolves s := by
  rw [exists_mapM_eq_ok_iff]
  exact forall₂_congr fun e he => exists_extentContent_iff (hs.resolves (.extent hm he))
    fun f hf => hs.resolves (.fragment hm he hf)

/-- A pair can be told by name exactly if all that is followed on trust is there. -/
theorem Built.exists_pairContent_iff (hs : s.Built) (hm : m ∈ s.mapping.containers) :
    (∃ c, s.pairContent m = .ok c) ↔ ∀ r, s.Followed m r → r.Resolves s := by
  constructor
  · rintro ⟨c, hc⟩ r hr
    obtain ⟨owner, -, closure, -, howner, -, hclosure, -, -, -, hentitySets, -, -, hassociations, -,
      hextents⟩ := pairContent_eq_ok_iff.1 hc
    cases hr with
    | container => exact ⟨owner, howner⟩
    | element hid hset =>
      exact (exists_entitySetContents_iff howner).1 ⟨_, hentitySets⟩ _ _ hid hset
    | source howner' hclosure' hid ha hfk hpair =>
      cases howner.symm.trans howner'
      cases hclosure.symm.trans hclosure'
      exact (hs.exists_associationContents_iff hclosure).1 ⟨_, hassociations⟩ _ _ hid ha _ hfk _
        hpair
    | mapped he hr => exact (hs.exists_extentContents_iff hm).1 ⟨_, hextents⟩ _ he r hr
  · intro h
    obtain ⟨owner, howner⟩ := h _ .container
    -- tables, types and association sets were checked; the rest is what may fail to resolve
    obtain ⟨store, tables, hstore, htables⟩ := hs.exists_tablesIn hm
    obtain ⟨closure, hclosure⟩ := hs.verified.exists_closure howner
    obtain ⟨entitySets, hentitySets⟩ := (exists_entitySetContents_iff howner).2
      fun id set hid hset => h _ (.element hid hset)
    obtain ⟨associationSets, hassociationSets⟩ := hs.exists_associationSetContents howner
    obtain ⟨types, htypes⟩ := hs.exists_typeContents hclosure
    obtain ⟨associations, hassociations⟩ := (hs.exists_associationContents_iff hclosure).2
      fun id a hid ha fk hfk pair hpair => h _ (.source howner hclosure hid ha hfk hpair)
    obtain ⟨extents, hextents⟩ := (hs.exists_extentContents_iff hm).2
      fun e he r hr => h r (.mapped he hr)
    exact ⟨⟨_, _, entitySets, associationSets, types, associations, _, extents⟩,
      pairContent_eq_ok_iff.2 ⟨owner, store, closure, tables, howner, hstore, hclosure, htables,
        rfl, rfl, hentitySets, hassociationSets, htypes, hassociations, rfl, hextents⟩⟩

end Pair

/-- **A mapped container has a hash exactly if all that is followed on trust is there.** -/
theorem Built.exists_compute_iff (hs : s.Built) {id : ContainerId} {m : ContainerMapping}
    (hm : s.mapping.container? id = some m) :
    (∃ h, ClosureHash.compute s id = .ok (some h)) ↔ ∀ r, s.Followed m r → r.Resolves s := by
  rw [← hs.exists_pairContent_iff (List.mem_of_find?_eq_some hm)]
  have hcontent : s.content id = some <$> s.pairContent m := by
    rw [content, hm]
    rfl
  rw [ClosureHash.compute, hcontent]
  cases s.pairContent m with
  | error f =>
    constructor
    · rintro ⟨h, heq⟩
      cases heq
    · rintro ⟨c, heq⟩
      cases heq
  | ok c =>
    constructor
    · intro _
      exact ⟨c, rfl⟩
    · intro _
      exact ⟨.ofContent c, rfl⟩

end QueryViews.Schema
