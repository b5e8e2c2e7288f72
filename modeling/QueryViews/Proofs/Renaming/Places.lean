import QueryViews.Proofs.Renaming.Basic

/-!
# From look-ups to collections

Schemas that correspond are compared look-up by look-up. What is read of a schema, though, are whole
collections: the fields of a type, the sets of a container, the columns of a table. When the places
of two collections are matched one to one and each place holds the same in both, the collections
are the same up to order.
-/

namespace QueryViews

/-- What is found at the places of a list is the list. -/
theorem filterMap_getElem?_range {α : Type} (l : List α) :
    (List.range l.length).filterMap (l[·]?) = l := by
  induction l with
  | nil => rfl
  | cons a l ih =>
    rw [List.length_cons, List.range_succ_eq_map, List.filterMap_cons, List.filterMap_map]
    exact congrArg _ ih

theorem forall₂_filterMap {α β γ : Type} {R : β → γ → Prop} {f : α → Option β}
    {g : α → Option γ} (h : ∀ a, Option.Rel R (f a) (g a)) (l : List α) :
    List.Forall₂ R (l.filterMap f) (l.filterMap g) := by
  induction l with
  | nil => exact .nil
  | cons a l ih =>
    rw [List.filterMap_cons, List.filterMap_cons]
    have ha := h a
    generalize f a = x at ha
    generalize g a = y at ha
    cases ha with
    | some hbc => exact .cons hbc ih
    | none => exact ih

/-- Lists whose places are matched one to one: `new` gives the new place of an old one, and `old`
the old place of a new one. -/
theorem rearranged_of_getElem? {α β : Type} {R : α → β → Prop} {l : List α} {l' : List β}
    (new old : Nat → Nat) (hold : ∀ i, old (new i) = i) (hnew : ∀ j, new (old j) = j)
    (h : ∀ i, Option.Rel R l[i]? l'[new i]?) : Rearranged R l l' := by
  have hlt : ∀ i, i < l.length ↔ new i < l'.length := by
    intro i
    have hi := h i
    rw [← not_iff_not, Nat.not_lt, Nat.not_lt, ← List.getElem?_eq_none_iff,
      ← List.getElem?_eq_none_iff]
    generalize l[i]? = x at hi
    generalize l'[new i]? = y at hi
    cases hi with
    | some _ => exact ⟨nofun, nofun⟩
    | none => exact ⟨fun _ => rfl, fun _ => rfl⟩
  have hperm : ((List.range l.length).map new).Perm (List.range l'.length) := by
    have hnodup : ((List.range l.length).map new).Nodup :=
      List.nodup_range.map (Function.LeftInverse.injective hold)
    rw [List.perm_ext_iff_of_nodup hnodup List.nodup_range]
    intro j
    rw [List.mem_map, List.mem_range]
    constructor
    · rintro ⟨i, hi, rfl⟩
      exact (hlt i).1 (List.mem_range.1 hi)
    · intro hj
      exact ⟨old j, List.mem_range.2 ((hlt _).2 (by rwa [hnew])), hnew j⟩
  -- both lists are read off their places, the second one in the order of the first
  have hpairs := forall₂_filterMap h (List.range l.length)
  have hmap := hperm.filterMap (l'[·]?)
  rw [filterMap_getElem?_range] at hpairs hmap
  rw [List.filterMap_map] at hmap
  exact rearranged_iff.2 ⟨_, hpairs, hmap⟩

/-- Lists of what is declared in an owner, when ids are renamed within the new id of the owner. -/
theorem rearranged_within {Owner Id α β : Type} {R : α → β → Prop} (place : Owner → Nat → Id)
    (owner : Id → Owner) (index : Id → Nat) (howner : ∀ o i, owner (place o i) = o)
    (hindex : ∀ o i, index (place o i) = i) (hplace : ∀ id, place (owner id) (index id) = id)
    {outer : Owner ≃ Owner} {inner : Id ≃ Id} (hinner : ∀ id, owner (inner id) = outer (owner id))
    (o : Owner) {l : List α} {l' : List β}
    (h : ∀ i, Option.Rel R l[i]? l'[index (inner (place o i))]?) : Rearranged R l l' := by
  have hforth : ∀ i, place (outer o) (index (inner (place o i))) = inner (place o i) := by
    intro i
    have ho := hinner (place o i)
    rw [howner] at ho
    rw [← ho, hplace]
  have hback : ∀ j, place o (index (inner.symm (place (outer o) j))) =
      inner.symm (place (outer o) j) := by
    intro j
    generalize hid : inner.symm (place (outer o) j) = id
    have ho : owner id = o := by
      apply outer.injective
      rw [← hinner, ← hid, Equiv.apply_symm_apply, howner]
    rw [← ho, hplace]
  refine rearranged_of_getElem? (fun i => index (inner (place o i)))
    (fun j => index (inner.symm (place (outer o) j))) (fun i => ?_) (fun j => ?_) h
  · rw [hforth, Equiv.symm_apply_apply, hindex]
  · rw [hback, Equiv.apply_symm_apply, hindex]

/-- Look-ups agree if what they find does. -/
theorem agree_found_iff {α β : Type} {R : α → β → Prop} {a : Option α} {b : Option β}
    {f f' : Fault} : Agree R (found a f) (found b f') ↔ Option.Rel R a b := by
  constructor
  · intro h
    cases a <;> cases b <;> cases h
    · exact .none
    · exact .some ‹_›
  · intro h
    cases h with
    | some hab => exact .ok hab
    | none => exact .error f f'

/-! ## Collections of schemas that correspond -/

namespace Renaming

variable {ρ : Renaming} {s s' : Schema}

/-- A type has the same fields in whatever order, since each is found under its new id. -/
theorem Corresponds.fields (h : ρ.Corresponds s s') {id : ModelId} {m m' : QueryViews.Model}
    (hm : s.conceptual.model id = .ok m) (hm' : s'.conceptual.model (ρ.model id) = .ok m') :
    Rearranged (fun f f' => ρ.fieldOf f = f') m.fields m'.fields := by
  refine rearranged_within FieldId.mk FieldId.model FieldId.index (fun _ _ => rfl)
    (fun _ _ => rfl) (fun _ => rfl) ρ.model_field id
    fun i => ?_
  have hf := h.field ⟨id, i⟩
  rw [Conceptual.field, Conceptual.field, ρ.model_field, hm, hm'] at hf
  exact agree_found_iff.1 hf

/-- A container has the same entity sets in whatever order. -/
theorem Corresponds.entitySets (h : ρ.Corresponds s s') {id : ContainerId} {c c' : Container}
    (hc : s.conceptual.container id = .ok c)
    (hc' : s'.conceptual.container (ρ.container id) = .ok c') :
    Rearranged (fun set set' => ρ.entitySetOf set = set') c.entitySets c'.entitySets := by
  refine rearranged_within EntitySetId.mk EntitySetId.container EntitySetId.index (fun _ _ => rfl)
    (fun _ _ => rfl) (fun _ => rfl) ρ.container_entitySet
    id fun i => ?_
  have hset := h.entitySet ⟨id, i⟩
  rw [Conceptual.entitySet, Conceptual.entitySet, ρ.container_entitySet, hc, hc'] at hset
  exact agree_found_iff.1 hset

/-- A container has the same association sets in whatever order. -/
theorem Corresponds.associationSets (h : ρ.Corresponds s s') {id : ContainerId}
    {c c' : Container} (hc : s.conceptual.container id = .ok c)
    (hc' : s'.conceptual.container (ρ.container id) = .ok c') :
    Rearranged (fun set set' => ρ.associationSetOf set = set') c.associationSets
      c'.associationSets := by
  refine rearranged_within AssociationSetId.mk AssociationSetId.container AssociationSetId.index
    (fun _ _ => rfl)
    (fun _ _ => rfl) (fun _ => rfl)
    ρ.container_associationSet id fun i => ?_
  have hset := h.associationSet ⟨id, i⟩
  rw [Conceptual.associationSet, Conceptual.associationSet, ρ.container_associationSet, hc, hc']
    at hset
  exact agree_found_iff.1 hset

/-- A table has the same columns in whatever order. -/
theorem Corresponds.columns (h : ρ.Corresponds s s') {id : TableId} {t t' : QueryViews.Table}
    (ht : s.store.table id = .ok t) (ht' : s'.store.table (ρ.table id) = .ok t') :
    t.columns.Perm t'.columns := by
  refine rearranged_eq_iff.1 (rearranged_within ColumnId.mk ColumnId.table ColumnId.index
    (fun _ _ => rfl) (fun _ _ => rfl) (fun _ => rfl) ρ.table_column id fun i => ?_)
  have hcolumn := h.column ⟨id, i⟩
  rw [Store.column, Store.column, ρ.table_column, ht, ht'] at hcolumn
  exact agree_found_iff.1 hcolumn

/-- The tables of a store container, each with the new one. -/
theorem Corresponds.tablesIn (h : ρ.Corresponds s s') (id : StoreId) :
    Agree (Rearranged fun p p' => ρ.table p.1 = p'.1 ∧ ρ.Table p.2 p'.2 ∧
      p.2.columns.Perm p'.2.columns) (s.store.tablesIn id) (s'.store.tablesIn (ρ.store id)) := by
  refine (h.store id).bind fun c c' hc => Agree.mapM (rearranged_map_iff.2 hc.tables) ?_
  rintro t t' rfl
  refine (h.table t).given.bind fun x x' hx => ?_
  obtain ⟨hxx, ht, ht'⟩ := hx
  exact .ok ⟨rfl, hxx, h.columns ht ht'⟩

end Renaming

end QueryViews
