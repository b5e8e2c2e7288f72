import QueryViews.Proofs.Closure.Names
import QueryViews.Proofs.Closure.Reached
import QueryViews.Proofs.Conceptual.Hierarchy
import QueryViews.Proofs.Closure.Named

/-!
# What a content tells of a container

The content of a mapped container has every set of the container, every relationship that it has a
set of, and every type that one of these refers to, also through base types. So the key of such a
type can be read off the content, by name (`Schema.Tells.key`), and in the content of a built schema
sets and types go by different names (`Schema.Tells.namesApart`). Relationships need not: two of one
name are told apart only where the name is there once (`Schema.Tells.association_eq_of_name`).
-/

namespace QueryViews

namespace Schema

variable {s : Schema} {owner : Container} {closure : List Element} {k : Content}

/-- The conceptual side of a content, each part from its part of the container. -/
structure Tells (s : Schema) (owner : Container) (closure : List Element) (k : Content) : Prop where
  name : owner.name = k.conceptual
  closed : s.conceptual.closure owner = .ok closure
  entitySets : owner.entitySets.mapM s.entitySetContent = .ok k.entitySets
  associationSets : owner.associationSets.mapM s.associationSetContent = .ok k.associationSets
  types : (closure.filterMap Element.model?).mapM s.typeContent = .ok k.types
  associations :
    (closure.filterMap Element.association?).mapM s.associationContent = .ok k.associations

/-- Content is told of the closure of its container. -/
theorem exists_tells {id : ContainerId} (h : s.content id = .ok (some k)) :
    ∃ owner closure, s.conceptual.container id = .ok owner ∧ s.Tells owner closure k := by
  obtain ⟨m, hm, hpair⟩ := content_eq_ok_some_iff.1 h
  obtain ⟨owner, _, closure, _, howner, -, hclosure, -, hname, -, hentity, hassociation, htypes,
    hassociations, -, -⟩ := pairContent_eq_ok_iff.1 hpair
  rw [conceptual_of_container? hm] at howner
  exact ⟨owner, closure, howner, hname, hclosure, hentity, hassociation, htypes, hassociations⟩

/-- What both ends are resolved to, end by end. -/
theorem get?_of_resolve {α β : Type} {f : α → Except Fault β} {ends : Ends α} {ends' : Ends β}
    (h : ends.resolve f = .ok ends') {index : Nat} {a : α} (ha : ends.get? index = some a) :
    ∃ b, ends'.get? index = some b ∧ f a = .ok b := by
  obtain ⟨first, hfirst, h⟩ := bind_eq_ok_iff.1 h
  obtain ⟨second, hsecond, hr⟩ := bind_eq_ok_iff.1 h
  cases hr
  match index with
  | 0 =>
    cases ha
    exact ⟨first, rfl, hfirst⟩
  | 1 =>
    cases ha
    exact ⟨second, rfl, hsecond⟩

/-- The name of a type is that of the model. -/
theorem modelName_eq_ok_iff {id : ModelId} {n : String} :
    s.modelName id = .ok n ↔ ∃ m, s.conceptual.model id = .ok m ∧ m.name = n := by
  simp only [modelName, bind_eq_ok_iff]
  exact exists_congr fun m => and_congr_right fun _ => ⟨Except.ok.inj, congrArg _⟩

/-- Types are told apart by their names. -/
theorem Verified.eq_iff_modelName_eq (hv : s.Verified) {id id' : ModelId} {n n' : String}
    (hn : s.modelName id = .ok n) (hn' : s.modelName id' = .ok n') : id = id' ↔ n = n' := by
  obtain ⟨m, hm, rfl⟩ := modelName_eq_ok_iff.1 hn
  obtain ⟨m', hm', rfl⟩ := modelName_eq_ok_iff.1 hn'
  constructor
  · rintro rfl
    cases hm.symm.trans hm'
    rfl
  · exact hv.model_eq_of_name hm hm'

/-- The name of an association is that of what was declared. -/
theorem associationName_eq_ok_iff {id : AssociationId} {n : String} :
    s.associationName id = .ok n ↔ ∃ a, s.conceptual.association id = .ok a ∧ a.name = n := by
  simp only [associationName, bind_eq_ok_iff]
  exact exists_congr fun a => and_congr_right fun _ => ⟨Except.ok.inj, congrArg _⟩

namespace Tells

/-- A type in the closure is told. -/
theorem exists_type (h : s.Tells owner closure k) {id : ModelId} (hid : .model id ∈ closure) :
    ∃ t ∈ k.types, s.typeContent id = .ok t :=
  exists_mem_of_mapM h.types (List.mem_filterMap.2 ⟨_, hid, rfl⟩)

/-- The association of a set is told. -/
theorem exists_association (h : s.Tells owner closure k) {set : AssociationSet}
    (hset : set ∈ owner.associationSets) :
    ∃ a ∈ k.associations, s.associationContent set.association = .ok a :=
  exists_mem_of_mapM h.associations
    (List.mem_filterMap.2 ⟨_, Conceptual.association_mem_closure h.closed hset, rfl⟩)

/-- In what is told of a verified container, sets and types go by different names. -/
theorem namesApart (h : s.Tells owner closure k) (hv : s.Verified)
    (howner : owner ∈ s.conceptual.containers) : k.NamesApart := by
  obtain ⟨hentity, hassociation, -⟩ := List.nodup_append.1 (hv.nodup_extentNames howner)
  refine ⟨fun set hset set' hset' hname => ?_, fun set hset set' hset' hname => ?_,
    fun t ht t' ht' hname => ?_⟩
  · obtain ⟨x, hx, hc⟩ := exists_of_mem_mapM h.associationSets hset
    obtain ⟨x', hx', hc'⟩ := exists_of_mem_mapM h.associationSets hset'
    -- names are told as they are, so sets with one name are one set
    have hnames : x.name = x'.name := (associationSetContent_eq_ok_iff.1 hc).1.trans
      (hname.trans (associationSetContent_eq_ok_iff.1 hc').1.symm)
    cases List.inj_on_of_nodup_map hassociation hx hx' hnames
    exact Except.ok.inj (hc.symm.trans hc')
  · obtain ⟨x, hx, hc⟩ := exists_of_mem_mapM h.entitySets hset
    obtain ⟨x', hx', hc'⟩ := exists_of_mem_mapM h.entitySets hset'
    have hnames : x.name = x'.name := (entitySetContent_eq_ok_iff.1 hc).1.trans
      (hname.trans (entitySetContent_eq_ok_iff.1 hc').1.symm)
    cases List.inj_on_of_nodup_map hentity hx hx' hnames
    exact Except.ok.inj (hc.symm.trans hc')
  · obtain ⟨x, -, hc⟩ := exists_of_mem_mapM h.types ht
    obtain ⟨x', -, hc'⟩ := exists_of_mem_mapM h.types ht'
    obtain ⟨m, hm, hn, -⟩ := typeContent_eq_ok_iff.1 hc
    obtain ⟨m', hm', hn', -⟩ := typeContent_eq_ok_iff.1 hc'
    cases hv.model_eq_of_name hm hm' (hn.trans (hname.trans hn'.symm))
    exact Except.ok.inj (hc.symm.trans hc')

end Tells

/-! ## Keys -/

/-- The base type and the own key of a type, by name. -/
theorem kindContent_eq_ok {m : Model} {kind : Content.TypeKind}
    (h : s.kindContent m.kind = .ok kind) :
    (∀ base, m.base? = some base → ∃ n, s.modelName base = .ok n ∧ kind.base? = some n) ∧
      (m.base? = none → kind.base? = none) ∧
      ((m.entity?.map EntityType.key).getD []).mapM s.fieldName = .ok kind.key := by
  rw [Model.base?, Model.entity?]
  cases hkind : m.kind with
  | embedded =>
    rw [hkind] at h
    cases h
    refine ⟨fun base hbase => ?_, fun _ => rfl, rfl⟩
    cases hbase
  | entity e =>
    rw [hkind] at h
    obtain ⟨base, hbase, h⟩ := bind_eq_ok_iff.1 h
    obtain ⟨key, hkey, hr⟩ := bind_eq_ok_iff.1 h
    cases hr
    refine ⟨fun id hid => ?_, fun hnone => ?_, hkey⟩
    · have hid : e.base = some id := hid
      rw [hid] at hbase
      obtain ⟨n, hn, hr⟩ := map_eq_ok_iff.1 hbase
      cases hr
      exact ⟨n, hn, rfl⟩
    · have hnone : e.base = none := hnone
      rw [hnone] at hbase
      cases hbase
      rfl

/-- The content tells the key of each type in the closure. -/
theorem Tells.key (h : s.Tells owner closure k) {id : ModelId} (hid : .model id ∈ closure)
    {key : List FieldId} (hkey : s.conceptual.keyFields id = .ok key) {n : String}
    (hn : s.modelName id = .ok n) : ∃ names, key.mapM s.fieldName = .ok names ∧ k.Key n names := by
  have hchain : ∃ chain, s.conceptual.Chain id chain := by
    obtain ⟨root, hroot, -⟩ := bind_eq_ok_iff.1 hkey
    obtain ⟨chain, hchain, -⟩ := bind_eq_ok_iff.1 hroot
    exact ⟨chain, Conceptual.chain_of_ancestors hchain⟩
  obtain ⟨chain, hchain⟩ := hchain
  -- upwards: a base type is in the closure too, and has the same key
  induction hchain generalizing n with
  | @root id m hm hbase =>
    obtain ⟨t, ht, hcontent⟩ := h.exists_type hid
    obtain ⟨m', hm', hname, hkind, -⟩ := typeContent_eq_ok_iff.1 hcontent
    cases hm.symm.trans hm'
    obtain ⟨-, hroot, hown⟩ := kindContent_eq_ok hkind
    obtain ⟨_, hm', rfl⟩ := modelName_eq_ok_iff.1 hn
    cases hm.symm.trans hm'
    rw [Conceptual.keyFields_of_root hm hbase hkey, hname]
    exact ⟨_, hown, .root ht (hroot hbase)⟩
  | @derived id base m above hm hbase rest ih =>
    obtain ⟨t, ht, hcontent⟩ := h.exists_type hid
    obtain ⟨m', hm', hname, hkind, -⟩ := typeContent_eq_ok_iff.1 hcontent
    cases hm.symm.trans hm'
    obtain ⟨hderived, -⟩ := kindContent_eq_ok hkind
    obtain ⟨_, hm', rfl⟩ := modelName_eq_ok_iff.1 hn
    cases hm.symm.trans hm'
    obtain ⟨n, hn, hbase'⟩ := hderived base hbase
    have hmem : .model base ∈ closure := by
      refine Conceptual.mem_closure_of_refersTo h.closed hid (bind_eq_ok_iff.2 ⟨m, hm, rfl⟩) ?_
      rw [hbase]
      exact List.mem_cons_self
    obtain ⟨names, hnames, hkey⟩ := ih hmem (Conceptual.keyFields_of_base hm hbase hkey) hn
    rw [hname]
    exact ⟨names, hnames, .derived ht hbase' hkey⟩

/-! ## Relationships -/

/-- Sets whose relationships go by one name are sets of one relationship, where the name stands for
one. -/
theorem Tells.association_eq_of_name (h : s.Tells owner closure k) {set other : AssociationSet}
    (hset : set ∈ owner.associationSets) (hother : other ∈ owner.associationSets) {n : String}
    (hn : s.associationName set.association = .ok n)
    (hn' : s.associationName other.association = .ok n) (hdistinguishes : k.Distinguishes n) :
    other.association = set.association := by
  have hname {x : AssociationId} (hx : s.associationName x = .ok n) (c : Content.Association)
      (hc : s.associationContent x = .ok c) : c.name = n := by
    obtain ⟨a, ha, hname⟩ := associationName_eq_ok_iff.1 hx
    obtain ⟨a', ha', hname', -⟩ := associationContent_eq_ok_iff.1 hc
    cases ha.symm.trans ha'
    exact hname'.symm.trans hname
  have hmem {x : AssociationSet} (hx : x ∈ owner.associationSets) :
      x.association ∈ closure.filterMap Element.association? :=
    List.mem_filterMap.2 ⟨_, Conceptual.association_mem_closure h.closed hx, rfl⟩
  exact eq_of_count_le_one (mapM_eq_ok_iff.1 h.associations) hdistinguishes.alone (hmem hother)
    (hmem hset) (hname hn') (hname hn)

end Schema

end QueryViews
