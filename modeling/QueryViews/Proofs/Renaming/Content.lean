import QueryViews.Closure.Content
import QueryViews.Proofs.Closure.Sameness
import QueryViews.Proofs.Renaming.Places

/-!
# What corresponds says the same

Content tells everything by name, and names do not change under a renaming. So each part of the
content agrees between schemas that correspond: a name outright, a collection up to order.
-/

namespace QueryViews

namespace Renaming

variable {ρ : Renaming} {s s' : Schema}

/-! ## Names -/

/-- A type has the same name. -/
theorem Corresponds.modelName (h : ρ.Corresponds s s') (id : ModelId) :
    Agree (· = ·) (s.modelName id) (s'.modelName (ρ.model id)) :=
  (h.model id).bind fun _ _ hm => .ok hm.name

/-- A field has the same name, and so has the type that declares it. -/
theorem Corresponds.fieldName (h : ρ.Corresponds s s') (id : FieldId) :
    Agree (· = ·) (s.fieldName id) (s'.fieldName (ρ.field id)) := by
  rw [Schema.fieldName, Schema.fieldName, ρ.model_field]
  refine (h.modelName id.model).bind fun owner _ howner => (h.field id).bind fun f _ hf => ?_
  subst howner hf
  exact .ok rfl

theorem Corresponds.columnName (h : ρ.Corresponds s s') (id : ColumnId) :
    Agree (· = ·) (s.columnName id) (s'.columnName (ρ.column id)) := by
  rw [Schema.columnName, Schema.columnName, ρ.table_column]
  refine (h.table id.table).bind fun t t' ht => (h.column id).bind fun c _ hc => ?_
  subst hc
  rw [ht.name]
  exact .ok rfl

theorem Corresponds.associationName (h : ρ.Corresponds s s') (id : AssociationId) :
    Agree (· = ·) (s.associationName id) (s'.associationName (ρ.association id)) :=
  (h.association id).bind fun _ _ ha => .ok ha.name

/-- An end keeps its place, so it is found, or not, on both sides. -/
theorem Corresponds.associationEnd (h : ρ.Corresponds s s') (id : EndId) :
    Agree (fun e e' => ρ.associationEnd e = e') (s.conceptual.associationEnd id)
      (s'.conceptual.associationEnd (ρ.endId id)) := by
  refine (h.association id.association).bind fun a a' ha => agree_found_iff.2 ?_
  obtain ⟨association, index⟩ := id
  rw [Ends.get?, Ends.get?, Ends.toList, Ends.toList, ← ha.first, ← ha.second]
  match index with
  | 0 => exact .some rfl
  | 1 => exact .some rfl
  | _ + 2 => exact .none

theorem Corresponds.endName (h : ρ.Corresponds s s') (id : EndId) :
    Agree (· = ·) (s.endName id) (s'.endName (ρ.endId id)) := by
  refine (h.associationName id.association).bind fun name _ hname =>
    (h.associationEnd id).bind fun e _ he => ?_
  subst hname he
  exact .ok rfl

theorem Corresponds.extentName (h : ρ.Corresponds s s') (e : Extent) :
    Agree (· = ·) (s.extentName e) (s'.extentName (ρ.extent e)) := by
  cases e with
  | entitySet id =>
    simp only [extent, Schema.extentName, ρ.container_entitySet]
    refine (h.container id.container).bind fun c c' hc => (h.entitySet id).bind fun set _ hset => ?_
    subst hset
    rw [hc]
    exact .ok rfl
  | associationSet id =>
    simp only [extent, Schema.extentName, ρ.container_associationSet]
    refine (h.container id.container).bind fun c c' hc =>
      (h.associationSet id).bind fun set _ hset => ?_
    subst hset
    rw [hc]
    exact .ok rfl
  | table id =>
    simp only [extent, Schema.extentName]
    refine (h.table id).bind fun t t' ht => ?_
    rw [← ht.container]
    refine (h.store t.container).bind fun c c' hc => ?_
    rw [ht.name, hc.name]
    exact .ok rfl

/-- A collection told by name, when each of its elements is. -/
theorem agree_mapM_perm {α β γ : Type} {new : α → β} {f : α → Except Fault γ}
    {g : β → Except Fault γ} (hfg : ∀ a, Agree (· = ·) (f a) (g (new a))) {l : List α}
    {l' : List β} (h : (l.map new).Perm l') : Agree List.Perm (l.mapM f) (l'.mapM g) := by
  refine (Agree.mapM (rearranged_map_iff.2 h) ?_).mono fun _ _ => rearranged_eq_iff.1
  rintro a _ rfl
  exact hfg a

/-- A list told by name in the order it has. -/
theorem agree_mapM_map {α β γ : Type} {new : α → β} {f : α → Except Fault γ}
    {g : β → Except Fault γ} (hfg : ∀ a, Agree (· = ·) (f a) (g (new a))) (l : List α) :
    Agree (· = ·) (l.mapM f) ((l.map new).mapM g) := by
  induction l with
  | nil => exact .ok rfl
  | cons a l ih =>
    rw [List.map_cons, List.mapM_cons, List.mapM_cons]
    refine (hfg a).bind fun b _ hb => ih.bind fun bs _ hbs => ?_
    subst hb hbs
    exact .ok rfl

/-! ## Types and relationships -/

theorem Corresponds.fieldTypeContent (h : ρ.Corresponds s s') (type : FieldType) :
    Agree (· = ·) (s.fieldTypeContent type) (s'.fieldTypeContent (ρ.fieldType type)) := by
  cases type with
  | scalar type => exact .ok rfl
  | embedded target => exact (h.modelName target).bind fun _ _ hn => .ok (hn ▸ rfl)
  | navigation association near far =>
    exact (h.associationName association).bind fun _ _ hn => .ok (hn ▸ rfl)

theorem Corresponds.fieldContent (h : ρ.Corresponds s s') (f : Field) :
    Agree (· = ·) (s.fieldContent f) (s'.fieldContent (ρ.fieldOf f)) :=
  (h.fieldTypeContent f.type).bind fun _ _ ht => .ok (ht ▸ rfl)

theorem Corresponds.kindContent (h : ρ.Corresponds s s') (kind : ModelKind) :
    Agree (· = ·) (s.kindContent kind) (s'.kindContent (ρ.kind kind)) := by
  cases kind with
  | embedded => exact .ok rfl
  | entity e =>
    have hbase : Agree (· = ·) (e.base.mapM s.modelName)
        ((e.base.map ρ.model).mapM s'.modelName) := by
      cases e.base with
      | none => exact .ok rfl
      | some base => exact (h.modelName base).bind fun _ _ hn => .ok (hn ▸ rfl)
    refine hbase.bind fun base _ hb => (agree_mapM_map h.fieldName e.key).bind fun key _ hk => ?_
    subst hb hk
    exact .ok rfl

/-- A type says the same up to the order of its fields. -/
theorem Corresponds.typeContent (h : ρ.Corresponds s s') (id : ModelId) :
    Agree Content.TypeContent.Same (s.typeContent id) (s'.typeContent (ρ.model id)) := by
  refine (h.model id).given.bind fun m m' hm => ?_
  obtain ⟨hmm, hm, hm'⟩ := hm
  rw [← hmm.kind]
  refine (h.kindContent m.kind).bind fun kind kind' hkind => ?_
  have hfields : Agree (Rearranged (· = ·)) (m.fields.mapM s.fieldContent)
      (m'.fields.mapM s'.fieldContent) := by
    refine Agree.mapM (h.fields hm hm') ?_
    rintro f _ rfl
    exact h.fieldContent f
  exact hfields.bind fun _ _ hf => .ok ⟨hmm.name, hkind, rearranged_eq_iff.1 hf⟩

theorem Corresponds.endContent (h : ρ.Corresponds s s') (e : AssociationEnd) :
    Agree (· = ·) (s.endContent e) (s'.endContent (ρ.associationEnd e)) :=
  (h.modelName e.model).bind fun _ _ hn => .ok (hn ▸ rfl)

/-- A constraint says the same up to the order of its pairs. -/
theorem Corresponds.constraintContent (h : ρ.Corresponds s s') {fk fk' : QueryViews.ForeignKey}
    (hfk : ρ.ForeignKey fk fk') :
    Agree Content.ForeignKey.Same (s.constraintContent fk) (s'.constraintContent fk') := by
  refine (agree_mapM_perm (fun p => ?_) hfk.fields).bind fun _ _ hp => .ok ⟨hfk.principal, hp⟩
  refine (h.fieldName p.source).bind fun source _ hs => (h.fieldName p.target).bind fun _ _ ht => ?_
  subst hs ht
  exact .ok rfl

/-- Both ends are looked up alike. -/
theorem agree_resolve {α β γ : Type} {new : α → β} {f : α → Except Fault γ}
    {g : β → Except Fault γ} (hfg : ∀ a, Agree (· = ·) (f a) (g (new a))) (ends : Ends α) :
    Agree (· = ·) (ends.resolve f) (Ends.resolve g ⟨new ends.first, new ends.second⟩) := by
  refine (hfg ends.first).bind fun first _ h1 => (hfg ends.second).bind fun second _ h2 => ?_
  subst h1 h2
  exact .ok rfl

/-- An association says the same up to the order of its constraints. -/
theorem Corresponds.associationContent (h : ρ.Corresponds s s') (id : AssociationId) :
    Agree Content.Association.Same (s.associationContent id)
      (s'.associationContent (ρ.association id)) := by
  refine (h.association id).bind fun a a' ha => ?_
  have hends : a'.ends = ⟨ρ.associationEnd a.ends.first, ρ.associationEnd a.ends.second⟩ := by
    rw [ha.first, ha.second]
  rw [hends]
  refine (agree_resolve h.endContent a.ends).bind fun ends _ he => ?_
  refine (Agree.mapM ha.constraints fun _ _ => h.constraintContent).bind fun _ _ hc => ?_
  exact .ok ⟨ha.name, ha.isForeignKey, ha.isAbstract, he, hc⟩

/-! ## Mappings -/

theorem Corresponds.bindingContent (h : ρ.Corresponds s s') (b : ColumnBinding) :
    Agree (· = ·) (s.bindingContent b) (s'.bindingContent (ρ.binding b)) := by
  refine (h.fieldName b.field).bind fun field _ hf => (h.columnName b.column).bind fun _ _ hc => ?_
  subst hf hc
  exact .ok rfl

/-- Properties inside others are told one by one. -/
theorem propertyContents_eq_mapM (s : Schema) (ps : List PropertyMapping) :
    s.propertyContents ps = ps.mapM s.propertyContent := by
  induction ps with
  | nil => rfl
  | cons p ps ih => rw [Schema.propertyContents, ih, List.mapM_cons]

/-- By induction on the first property: the properties inside it agree one by one, in whatever
order they come. -/
theorem Corresponds.propertyContent (h : ρ.Corresponds s s') :
    ∀ {p p' : PropertyMapping}, ρ.Property p p' →
      Agree Content.Property.Same (s.propertyContent p) (s'.propertyContent p')
  | _, _, .scalar b => by
    rw [Schema.propertyContent, Schema.propertyContent]
    refine (h.fieldName b.field).bind fun field _ hf =>
      (h.columnName b.column).bind fun column _ hc => ?_
    subst hf hc
    exact .ok (.scalar field column)
  | .embedded field ps, .embedded _ ps', .embedded _ hps => by
    rw [Schema.propertyContent, Schema.propertyContent, propertyContents_eq_mapM,
      propertyContents_eq_mapM]
    have hinner : Rearranged (fun p p' => Agree Content.Property.Same (s.propertyContent p)
        (s'.propertyContent p')) ps ps' := by
      refine hps.mono fun p hmem p' _ hp => ?_
      have hmem : p ∈ ps := Multiset.mem_coe.1 hmem
      exact h.propertyContent hp
    refine (h.fieldName field).bind fun name _ hn =>
      (Agree.mapM hinner fun _ _ hp => hp).bind fun _ _ hr => ?_
    subst hn
    exact .ok (.embedded name hr)
  | _, _, .ends id hb => by
    rw [Schema.propertyContent, Schema.propertyContent]
    refine (h.endName id).bind fun name _ hn =>
      (agree_mapM_perm h.bindingContent hb).bind fun _ _ hr => ?_
    subst hn
    exact .ok (.ends name hr)
termination_by p => p

theorem Corresponds.targetContent (h : ρ.Corresponds s s') (t : ConditionTarget) :
    Agree (· = ·) (s.targetContent t) (s'.targetContent (ρ.target t)) := by
  cases t with
  | field id => exact (h.fieldName id).bind fun _ _ hn => .ok (hn ▸ rfl)
  | column id => exact (h.columnName id).bind fun _ _ hn => .ok (hn ▸ rfl)

theorem Corresponds.conditionContent (h : ρ.Corresponds s s') (c : Condition) :
    Agree (· = ·) (s.conditionContent c) (s'.conditionContent (ρ.condition c)) :=
  (h.targetContent c.target).bind fun _ _ ht => .ok (ht ▸ rfl)

/-- A fragment says the same up to order. -/
theorem Corresponds.fragmentContent (h : ρ.Corresponds s s') {f f' : QueryViews.Fragment}
    (hf : ρ.Fragment f f') :
    Agree Content.Fragment.Same (s.fragmentContent f) (s'.fragmentContent f') := by
  rw [Schema.fragmentContent, Schema.fragmentContent, propertyContents_eq_mapM,
    propertyContents_eq_mapM, ← hf.table]
  refine (h.table f.table).bind fun t t' ht => ?_
  refine (Agree.mapM hf.properties fun _ _ => h.propertyContent).bind fun _ _ hp => ?_
  exact (agree_mapM_perm h.conditionContent hf.conditions).bind fun _ _ hc => .ok ⟨ht.name, hp, hc⟩

/-- A mapping of types says the same up to order. -/
theorem Corresponds.typeMappingContent (h : ρ.Corresponds s s') {m m' : QueryViews.TypeMapping}
    (hm : ρ.TypeMapping m m') :
    Agree Content.TypeMapping.Same (s.typeMappingContent m) (s'.typeMappingContent m') := by
  refine (agree_mapM_perm h.modelName hm.types).bind fun _ _ ht => ?_
  refine (agree_mapM_perm h.modelName hm.isOfTypes).bind fun _ _ hi => ?_
  exact (Agree.mapM hm.fragments fun _ _ => h.fragmentContent).bind fun _ _ hf => .ok ⟨ht, hi, hf⟩

theorem Corresponds.memberContent (h : ρ.Corresponds s s') (m : ParameterMember) :
    Agree (· = ·) (s.memberContent m) (s'.memberContent (ρ.member m)) := by
  cases m with
  | path fields => exact (agree_mapM_map h.fieldName fields).bind fun _ _ hp => .ok (hp ▸ rfl)
  | farEnd id field =>
    refine (h.endName id).bind fun name _ hn => (h.fieldName field).bind fun _ _ hf => ?_
    subst hn hf
    exact .ok rfl

theorem Corresponds.parameterContent (h : ρ.Corresponds s s') (p : ParameterBinding) :
    Agree (· = ·) (s.parameterContent p) (s'.parameterContent (ρ.parameter p)) :=
  (h.memberContent p.member).bind fun _ _ hm => .ok (hm ▸ rfl)

/-- A function says the same up to the order of its parameters. -/
theorem Corresponds.functionContent (h : ρ.Corresponds s s') {f f' : FunctionMapping}
    (hf : ρ.Function f f') :
    Agree Content.Function.Same (s.functionContent f) (s'.functionContent f') := by
  rw [Schema.functionContent, Schema.functionContent, ← hf.type]
  refine (h.modelName f.type).bind fun _ _ hn => ?_
  refine (agree_mapM_perm h.parameterContent hf.parameters).bind fun _ _ hp => ?_
  exact .ok ⟨hn, hf.kind, hf.function, hp⟩

theorem Corresponds.typeViewContent (h : ρ.Corresponds s s') (v : TypeView) :
    Agree (· = ·) (s.typeViewContent v) (s'.typeViewContent (ρ.typeView v)) :=
  (h.modelName v.type).bind fun _ _ hn => .ok (hn ▸ rfl)

/-- The mapping of an extent says the same up to order. -/
theorem Corresponds.extentContent (h : ρ.Corresponds s s') {m m' : QueryViews.ExtentMapping}
    (hm : ρ.ExtentMapping m m') :
    Agree Content.ExtentMapping.Same (s.extentContent m) (s'.extentContent m') := by
  rw [Schema.extentContent, Schema.extentContent, ← hm.extent, ← hm.queryView]
  refine (h.extentName m.extent).bind fun _ _ hn => ?_
  refine (agree_mapM_perm h.typeViewContent hm.typeViews).bind fun _ _ hv => ?_
  refine (Agree.mapM hm.typeMappings fun _ _ => h.typeMappingContent).bind fun _ _ ht => ?_
  exact (Agree.mapM hm.functions fun _ _ => h.functionContent).bind fun _ _ hf =>
    .ok ⟨hn, rfl, hv, ht, hf⟩

/-! ## Containers -/

theorem Corresponds.entitySetContent (h : ρ.Corresponds s s') (set : EntitySet) :
    Agree (· = ·) (s.entitySetContent set) (s'.entitySetContent (ρ.entitySetOf set)) :=
  (h.modelName set.model).bind fun _ _ hn => .ok (hn ▸ rfl)

theorem Corresponds.associationSetContent (h : ρ.Corresponds s s') (set : AssociationSet) :
    Agree (· = ·) (s.associationSetContent set)
      (s'.associationSetContent (ρ.associationSetOf set)) := by
  have hset : ∀ id, Agree (· = ·) ((s.conceptual.entitySet id).map EntitySet.name)
      ((s'.conceptual.entitySet (ρ.entitySet id)).map EntitySet.name) :=
    fun id => (h.entitySet id).bind fun set _ hs => .ok (hs ▸ rfl)
  refine (h.associationName set.association).bind fun name _ hn => ?_
  refine (agree_resolve hset set.ends).bind fun ends _ he => ?_
  subst hn he
  exact .ok rfl

end Renaming

end QueryViews
