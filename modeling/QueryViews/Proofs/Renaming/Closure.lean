import QueryViews.Proofs.Closure.Reached
import QueryViews.Proofs.Renaming.Places

/-!
# The closure of a container under a renaming

The walk meets elements in an order that depends on how things were declared, so two walks of
schemas that correspond are not compared step by step. What is compared is what they reach
(`Corresponds.reached_iff`): a renaming carries references along, both ways. Since a walk sees each
element that is reached exactly once, the two closures are the same up to order.
-/

namespace QueryViews

namespace Renaming

variable {ρ : Renaming} {s s' : Schema}

/-! ## Elements -/

/-- The new id of an element. -/
def element (ρ : Renaming) : Element → Element
  | .model id => .model (ρ.model id)
  | .association id => .association (ρ.association id)

/-- Different elements have different new ids. -/
theorem element_injective (ρ : Renaming) : Function.Injective ρ.element := by
  intro e e' h
  cases e <;> cases e' <;> simp_all [element]

/-- Every element is the new one of some. -/
theorem exists_element_eq (ρ : Renaming) (e' : Element) : ∃ e, ρ.element e = e' := by
  cases e' with
  | model id => exact ⟨.model (ρ.model.symm id), by simp [element]⟩
  | association id => exact ⟨.association (ρ.association.symm id), by simp [element]⟩

theorem model?_element (ρ : Renaming) (e : Element) :
    (ρ.element e).model? = e.model?.map ρ.model := by
  cases e <;> rfl

theorem association?_element (ρ : Renaming) (e : Element) :
    (ρ.element e).association? = e.association?.map ρ.association := by
  cases e <;> rfl

/-- The new name of each element is in the second list when the element is in the first. -/
def Mirrored {α β : Type} (new : α → β) (l : List α) (l' : List β) : Prop :=
  ∀ a, a ∈ l ↔ new a ∈ l'

/-- What is the same up to order has the same elements. -/
theorem mirrored_of_perm {α β : Type} {new : α → β} (hnew : Function.Injective new) {l : List α}
    {l' : List β} (h : (l.map new).Perm l') : Mirrored new l l' := by
  intro a
  rw [← h.mem_iff, List.mem_map_of_injective hnew]

/-! ## The hierarchy -/

/-- The base of a type, by its new id. -/
theorem Model.base? {m m' : QueryViews.Model} (h : ρ.Model m m') :
    m'.base? = m.base?.map ρ.model := by
  obtain ⟨name, fields, kind⟩ := m
  obtain ⟨name', fields', kind'⟩ := m'
  obtain rfl : ρ.kind kind = kind' := h.kind
  cases kind <;> rfl

/-- An entity type stays one. -/
theorem Model.isEntity {m m' : QueryViews.Model} (h : ρ.Model m m') :
    m'.isEntity = m.isEntity := by
  obtain ⟨name, fields, kind⟩ := m
  obtain ⟨name', fields', kind'⟩ := m'
  obtain rfl : ρ.kind kind = kind' := h.kind
  cases kind <;> rfl

theorem mem_modelIds_iff {c : Conceptual} {id : ModelId} :
    id ∈ c.modelIds ↔ ∃ m, c.model id = .ok m := by
  obtain ⟨index⟩ := id
  simp only [Conceptual.model, found_eq_ok_iff]
  rw [← Option.isSome_iff_exists]
  simp [Conceptual.modelIds]

theorem nodup_modelIds (c : Conceptual) : c.modelIds.Nodup :=
  List.nodup_range.map fun _ _ h => congrArg ModelId.index h

/-- Types that are there are there under their new ids. -/
theorem Corresponds.mirrored_modelIds (h : ρ.Corresponds s s') :
    Mirrored ρ.model s.conceptual.modelIds s'.conceptual.modelIds := by
  intro id
  rw [mem_modelIds_iff, mem_modelIds_iff]
  constructor
  · rintro ⟨m, hm⟩
    obtain ⟨m', hm', -⟩ := (h.model id).exists_ok hm
    exact ⟨m', hm'⟩
  · rintro ⟨m', hm'⟩
    obtain ⟨m, hm, -⟩ := (h.model id).flip.exists_ok hm'
    exact ⟨m, hm⟩

/-- There are as many types, so walks up the bases may take as many steps. -/
theorem Corresponds.length_models (h : ρ.Corresponds s s') :
    s.conceptual.models.length = s'.conceptual.models.length := by
  have hperm : (s.conceptual.modelIds.map ρ.model).Perm s'.conceptual.modelIds := by
    rw [List.perm_ext_iff_of_nodup ((nodup_modelIds _).map ρ.model.injective) (nodup_modelIds _)]
    intro id'
    obtain ⟨id, rfl⟩ := ρ.model.surjective id'
    rw [List.mem_map_of_injective ρ.model.injective, h.mirrored_modelIds id]
  simpa [Conceptual.modelIds] using hperm.length_eq

/-- The walk up the bases meets the same types in the same order. -/
theorem Corresponds.basesWithin (h : ρ.Corresponds s s') (bound : Nat) (id : ModelId) :
    Agree (fun l l' => l.map ρ.model = l') (s.conceptual.basesWithin bound id)
      (s'.conceptual.basesWithin bound (ρ.model id)) := by
  induction bound generalizing id with
  | zero => exact .error _ _
  | succ bound ih =>
    refine (h.model id).bind fun m m' hm => ?_
    rw [hm.base?]
    cases m.base? with
    | none => exact .ok rfl
    | some base =>
      refine (ih base).bind fun above _ ha => ?_
      subst ha
      exact .ok rfl

/-- The same types are assignable to the same types. -/
theorem Corresponds.isAssignable (h : ρ.Corresponds s s') (id ancestor : ModelId) :
    Agree (· = ·) (s.conceptual.isAssignable id ancestor)
      (s'.conceptual.isAssignable (ρ.model id) (ρ.model ancestor)) := by
  rw [Conceptual.isAssignable, Conceptual.isAssignable, Conceptual.ancestors,
    Conceptual.ancestors, ← h.length_models]
  refine (h.basesWithin _ id).bind fun above _ ha => ?_
  subst ha
  exact .ok (by simp)

/-- Selections by tests that agree agree on what they keep. -/
theorem agree_select {α β : Type} {new : α → β} (hnew : Function.Surjective new)
    {test : α → Except Fault Bool} {test' : β → Except Fault Bool} {l : List α} {l' : List β}
    (hl : Mirrored new l l') (ht : ∀ a, Agree (· = ·) (test a) (test' (new a))) :
    Agree (Mirrored new) (select test l) (select test' l') := by
  have forth : ∀ a b, test a = .ok b → test' (new a) = .ok b := by
    intro a b hb
    obtain ⟨_, hb', rfl⟩ := (ht a).exists_ok hb
    exact hb'
  have back : ∀ a b, test' (new a) = .ok b → test a = .ok b := by
    intro a b hb
    obtain ⟨_, hb', rfl⟩ := (ht a).flip.exists_ok hb
    exact hb'
  -- a selection fails if a test fails somewhere, and the tests fail at the same places
  refine .of_forall (fun r hr => ?_) fun r' hr' => ?_
  · obtain ⟨hok, hmem⟩ := mem_of_select_eq_ok hr
    have hok' : ∀ a' ∈ l', ∃ b, test' a' = .ok b := by
      intro a' ha'
      obtain ⟨a, rfl⟩ := hnew a'
      obtain ⟨b, hb⟩ := hok a ((hl a).2 ha')
      exact ⟨b, forth a b hb⟩
    obtain ⟨r', hr'⟩ := exists_select_eq_ok hok'
    refine ⟨r', hr', fun a => ?_⟩
    rw [hmem, (mem_of_select_eq_ok hr').2, hl a]
    exact and_congr_right fun _ => ⟨forth a true, back a true⟩
  · obtain ⟨hok', -⟩ := mem_of_select_eq_ok hr'
    refine exists_select_eq_ok fun a ha => ?_
    obtain ⟨b, hb⟩ := hok' (new a) ((hl a).1 ha)
    exact ⟨b, back a b hb⟩

/-- A type has the same subtypes. -/
theorem Corresponds.subtypes (h : ρ.Corresponds s s') (id : ModelId) :
    Agree (Mirrored ρ.model) (s.conceptual.subtypes id) (s'.conceptual.subtypes (ρ.model id)) := by
  refine agree_select ρ.model.surjective h.mirrored_modelIds fun candidate => ?_
  refine (h.model candidate).bind fun m m' hm => ?_
  rw [hm.isEntity]
  cases m.isEntity with
  | false => exact .ok rfl
  | true => exact h.isAssignable candidate id

/-! ## References -/

/-- The type of a field refers to the same elements. -/
theorem refersTo_fieldType (ρ : Renaming) (type : FieldType) :
    (ρ.fieldType type).refersTo = type.refersTo.map ρ.element := by
  cases type <;> rfl

/-- An element refers to the same elements, in an order that may differ with that of its fields. -/
theorem Corresponds.refersTo (h : ρ.Corresponds s s') (e : Element) :
    Agree (fun next next' => (next.map ρ.element).Perm next') (s.conceptual.refersTo e)
      (s'.conceptual.refersTo (ρ.element e)) := by
  cases e with
  | model id =>
    refine (h.model id).given.bind fun m m' hm => ?_
    obtain ⟨hmm, hm, hm'⟩ := hm
    have hbase : (m.base?.toList.map Element.model).map ρ.element =
        m'.base?.toList.map Element.model := by
      rw [hmm.base?]
      cases m.base? <;> rfl
    -- only the order of the fields may differ, and with it that of what they refer to
    have hfields : ((m.fields.flatMap fun f => f.type.refersTo).map ρ.element).Perm
        (m'.fields.flatMap fun f => f.type.refersTo) := by
      have hperm := (rearranged_map_iff.1 (h.fields hm hm')).flatMap_right
        fun f => f.type.refersTo
      rw [List.flatMap_map] at hperm
      rw [List.map_flatMap]
      simpa only [fieldOf, refersTo_fieldType] using hperm
    refine .ok ?_
    rw [List.map_append, hbase]
    exact hfields.append_left _
  | association id =>
    refine (h.association id).bind fun a a' ha => .ok ?_
    rw [Ends.toList, Ends.toList, ← ha.first, ← ha.second]
    exact .refl _

theorem Corresponds.mirrored_refersTo (h : ρ.Corresponds s s') (e : Element) :
    Agree (Mirrored ρ.element) (s.conceptual.refersTo e)
      (s'.conceptual.refersTo (ρ.element e)) :=
  (h.refersTo e).mono fun _ _ => mirrored_of_perm ρ.element_injective

/-- A renaming carries what is reached along, and back. -/
theorem Corresponds.reached_iff (h : ρ.Corresponds s s') {roots roots' : List Element}
    (hroots : Mirrored ρ.element roots roots') (e : Element) :
    s.conceptual.Reached roots e ↔ s'.conceptual.Reached roots' (ρ.element e) := by
  constructor
  · intro he
    induction he with
    | root hmem => exact .root ((hroots _).1 hmem)
    | step _ hnext hmem ih =>
      obtain ⟨next', hnext', hm⟩ := (h.mirrored_refersTo _).exists_ok hnext
      exact .step ih hnext' ((hm _).1 hmem)
  · intro he
    -- every element on the other side has an old name, so the induction goes back along it
    generalize hnew : ρ.element e = e' at he
    induction he generalizing e with
    | root hmem =>
      subst hnew
      exact .root ((hroots e).2 hmem)
    | step _ hnext' hmem ih =>
      subst hnew
      rename_i e₁' next' _
      obtain ⟨e₁, rfl⟩ := ρ.exists_element_eq e₁'
      obtain ⟨next, hnext, hm⟩ := (h.mirrored_refersTo e₁).flip.exists_ok hnext'
      exact .step (ih e₁ rfl) hnext ((hm e).2 hmem)

/-- A walk from the same roots meets the same elements. In which order it meets them may differ. -/
theorem Corresponds.visit (h : ρ.Corresponds s s') {roots roots' : List Element}
    (hroots : Mirrored ρ.element roots roots') :
    Agree (fun l l' => (l.map ρ.element).Perm l') (s.conceptual.visit roots [])
      (s'.conceptual.visit roots' []) := by
  -- what is reached is declared on one side if and only if it is on the other
  have hdeclared : (∀ e, s.conceptual.Reached roots e → ∃ n, s.conceptual.refersTo e = .ok n) ↔
      ∀ e, s'.conceptual.Reached roots' e → ∃ n, s'.conceptual.refersTo e = .ok n := by
    constructor
    · intro hd e' he'
      obtain ⟨e, rfl⟩ := ρ.exists_element_eq e'
      obtain ⟨next, hnext⟩ := hd e ((h.reached_iff hroots e).2 he')
      obtain ⟨next', hnext', -⟩ := (h.mirrored_refersTo e).exists_ok hnext
      exact ⟨next', hnext'⟩
    · intro hd e he
      obtain ⟨next', hnext'⟩ := hd _ ((h.reached_iff hroots e).1 he)
      obtain ⟨next, hnext, -⟩ := (h.mirrored_refersTo e).flip.exists_ok hnext'
      exact ⟨next, hnext⟩
  rw [← Conceptual.exists_visit_eq_ok_iff, ← Conceptual.exists_visit_eq_ok_iff] at hdeclared
  refine .of_forall (fun l hl => ?_) fun l' hl' => hdeclared.2 ⟨l', hl'⟩
  obtain ⟨l', hl'⟩ := hdeclared.1 ⟨l, hl⟩
  have w := (Conceptual.Walk.start _ _).of_visit_eq_ok hl
  have w' := (Conceptual.Walk.start _ _).of_visit_eq_ok hl'
  refine ⟨l', hl', ?_⟩
  rw [List.perm_ext_iff_of_nodup (w.nodup_seen.map ρ.element_injective) w'.nodup_seen]
  intro e'
  obtain ⟨e, rfl⟩ := ρ.exists_element_eq e'
  rw [List.mem_map_of_injective ρ.element_injective, w.mem_seen_iff, w'.mem_seen_iff,
    h.reached_iff hroots]

/-! ## The closure -/

theorem mirrored_flatten {α β : Type} {new : α → β} {ls : List (List α)} {ls' : List (List β)}
    (h : Rearranged (Mirrored new) ls ls') : Mirrored new ls.flatten ls'.flatten := by
  intro a
  rw [List.mem_flatten, List.mem_flatten]
  constructor
  · rintro ⟨l, hl, ha⟩
    obtain ⟨l', hl', hm⟩ := Multiset.exists_mem_of_rel_of_mem h (Multiset.mem_coe.2 hl)
    exact ⟨l', Multiset.mem_coe.1 hl', (hm a).1 ha⟩
  · rintro ⟨l', hl', ha⟩
    obtain ⟨l, hl, hm⟩ := Multiset.exists_mem_of_rel_of_mem (Multiset.rel_flip.2 h)
      (Multiset.mem_coe.2 hl')
    exact ⟨l, Multiset.mem_coe.1 hl, (hm a).2 ha⟩

/-- The walk starts at the same elements. -/
theorem Corresponds.containerElements (h : ρ.Corresponds s s') {c c' : Container}
    (hsets : Rearranged (fun set set' => ρ.entitySetOf set = set') c.entitySets c'.entitySets)
    (hassociationSets : Rearranged (fun set set' => ρ.associationSetOf set = set')
      c.associationSets c'.associationSets) :
    Agree (Mirrored ρ.element) (s.conceptual.containerElements c)
      (s'.conceptual.containerElements c') := by
  have htypes : Agree (Rearranged (Mirrored ρ.model))
      (c.entitySets.mapM fun set => s.conceptual.subtypes set.model)
      (c'.entitySets.mapM fun set => s'.conceptual.subtypes set.model) := by
    refine Agree.mapM hsets ?_
    rintro set _ rfl
    exact h.subtypes set.model
  refine htypes.bind fun types types' ht => .ok fun e => ?_
  have hperm := rearranged_map_iff.1 hassociationSets
  rw [List.mem_append, List.mem_append]
  cases e with
  | model id => simpa [element] using mirrored_flatten ht id
  | association id =>
    have hmem : ρ.association id ∈ _ ↔ ρ.association id ∈ _ :=
      (hperm.map AssociationSet.association).mem_iff
    simpa [element, associationSetOf, Function.comp_def] using hmem

/-- The closure of a container has the same elements. -/
theorem Corresponds.closure (h : ρ.Corresponds s s') {id : ContainerId} {c c' : Container}
    (hc : s.conceptual.container id = .ok c)
    (hc' : s'.conceptual.container (ρ.container id) = .ok c') :
    Agree (fun l l' => (l.map ρ.element).Perm l') (s.conceptual.closure c)
      (s'.conceptual.closure c') :=
  (h.containerElements (h.entitySets hc hc') (h.associationSets hc hc')).bind
    fun _ _ hroots => h.visit hroots

/-- The types of two closures that are the same up to order. -/
theorem models_perm {l l' : List Element} (h : (l.map ρ.element).Perm l') :
    ((l.filterMap Element.model?).map ρ.model).Perm (l'.filterMap Element.model?) := by
  have hperm := h.filterMap Element.model?
  rw [List.filterMap_map] at hperm
  rw [List.map_filterMap]
  simpa only [Function.comp_def, model?_element] using hperm

/-- The relationships of two closures that are the same up to order. -/
theorem associations_perm {l l' : List Element} (h : (l.map ρ.element).Perm l') :
    ((l.filterMap Element.association?).map ρ.association).Perm
      (l'.filterMap Element.association?) := by
  have hperm := h.filterMap Element.association?
  rw [List.filterMap_map] at hperm
  rw [List.map_filterMap]
  simpa only [Function.comp_def, association?_element] using hperm

end Renaming

end QueryViews
