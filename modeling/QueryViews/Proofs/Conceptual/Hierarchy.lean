import QueryViews.Proofs.Outcome
import QueryViews.Conceptual.Hierarchy

/-!
# Chains of base types

The walk up the base types of a type is bounded, but what it finds does not depend on the bound:
it is the **chain** of the type (`Chain`), or nothing. The chain of a type above is what is left of
the chain from there on. So assignability is transitive, and the fields of a type are those that
are declared anywhere on its chain.
-/

namespace QueryViews

/-- The fields of a model have its id and the places in its list. -/
theorem Model.mem_fieldIds_iff {m : Model} {id : ModelId} {f : FieldId} :
    f ∈ m.fieldIds id ↔ f.model = id ∧ f.index < m.fields.length := by
  rw [fieldIds, List.mem_map]
  constructor
  · rintro ⟨index, hindex, rfl⟩
    exact ⟨rfl, List.mem_range.1 hindex⟩
  · rintro ⟨rfl, hindex⟩
    exact ⟨f.index, List.mem_range.2 hindex, rfl⟩

namespace Conceptual

variable {c : Conceptual} {id ancestor : ModelId} {chain : List ModelId}

/-! ## The chain of a type -/

/-- The type and its base types up to the root, each of them declared. -/
inductive Chain (c : Conceptual) : ModelId → List ModelId → Prop
  | root {id : ModelId} {m : Model} (hm : c.model id = .ok m) (hbase : m.base? = none) :
    Chain c id [id]
  | derived {id base : ModelId} {m : Model} {above : List ModelId} (hm : c.model id = .ok m)
    (hbase : m.base? = some base) (rest : Chain c base above) : Chain c id (id :: above)

/-- A walk finds the chain if it may go far enough, and else nothing. -/
theorem basesWithin_eq_ok_iff {bound : Nat} :
    c.basesWithin bound id = .ok chain ↔ c.Chain id chain ∧ chain.length ≤ bound := by
  constructor
  · intro h
    -- each step of the walk is a link of the chain, so the bound is on its length
    induction bound generalizing id chain with
    | zero => cases h
    | succ bound ih =>
      obtain ⟨m, hm, h⟩ := bind_eq_ok_iff.1 h
      cases hbase : m.base? with
      | none =>
        rw [hbase] at h
        cases h
        exact ⟨.root hm hbase, Nat.le_add_left _ _⟩
      | some base =>
        rw [hbase] at h
        obtain ⟨above, habove, hr⟩ := bind_eq_ok_iff.1 h
        cases hr
        obtain ⟨rest, hbound⟩ := ih habove
        exact ⟨.derived hm hbase rest, Nat.succ_le_succ hbound⟩
  · rintro ⟨h, hbound⟩
    induction h generalizing bound with
    | root hm hbase =>
      obtain ⟨bound, rfl⟩ := Nat.exists_eq_add_of_le' hbound
      refine bind_eq_ok_iff.2 ⟨_, hm, ?_⟩
      rw [hbase]
      rfl
    | derived hm hbase rest ih =>
      obtain ⟨bound, rfl⟩ := Nat.exists_eq_succ_of_ne_zero (Nat.ne_of_gt (Nat.lt_of_lt_of_le
        (Nat.succ_pos _) hbound))
      refine bind_eq_ok_iff.2 ⟨_, hm, ?_⟩
      rw [hbase]
      exact bind_eq_ok_iff.2 ⟨_, ih (Nat.le_of_succ_le_succ hbound), rfl⟩

/-- The chain of a type above is the rest of the chain. -/
theorem Chain.exists_suffix (h : c.Chain id chain) (ha : ancestor ∈ chain) :
    ∃ above, c.Chain ancestor above ∧ above <:+ chain := by
  induction h with
  | root hm hbase =>
    obtain rfl := List.mem_singleton.1 ha
    exact ⟨_, .root hm hbase, List.suffix_rfl⟩
  | derived hm hbase rest ih =>
    rcases List.mem_cons.1 ha with rfl | ha
    · exact ⟨_, .derived hm hbase rest, List.suffix_rfl⟩
    · obtain ⟨above, habove, hsuffix⟩ := ih ha
      exact ⟨above, habove, hsuffix.trans (List.suffix_cons _ _)⟩

/-- Every type of a chain is there. -/
theorem Chain.exists_model (h : c.Chain id chain) (ha : ancestor ∈ chain) :
    ∃ m, c.model ancestor = .ok m := by
  obtain ⟨above, habove, -⟩ := h.exists_suffix ha
  cases habove with
  | root hm | derived hm => exact ⟨_, hm⟩

theorem Chain.mem_self (h : c.Chain id chain) : id ∈ chain := by
  cases h <;> exact List.mem_cons_self

/-- A chain has the type that it starts with. -/
theorem Chain.ne_nil (h : c.Chain id chain) : chain ≠ [] := by
  cases h <;> exact List.cons_ne_nil _ _

/-- A chain starts with the type that it is of. -/
theorem Chain.head?_eq (h : c.Chain id chain) : chain.head? = some id := by
  cases h <;> rfl

/-- A type has one chain. -/
theorem Chain.unique {chain' : List ModelId} (h : c.Chain id chain) (h' : c.Chain id chain') :
    chain = chain' := by
  induction h generalizing chain' with
  | root hm hbase =>
    cases h' with
    | root => rfl
    | derived hm' hbase' =>
      cases hm.symm.trans hm'
      cases hbase.symm.trans hbase'
  | derived hm hbase rest ih =>
    cases h' with
    | root hm' hbase' =>
      cases hm.symm.trans hm'
      cases hbase.symm.trans hbase'
    | derived hm' hbase' rest' =>
      cases hm.symm.trans hm'
      cases hbase.symm.trans hbase'
      rw [ih rest']

/-- No type is on its chain twice: else the chain would go on below itself. -/
theorem Chain.nodup (h : c.Chain id chain) : chain.Nodup := by
  induction h with
  | root => exact List.nodup_singleton _
  | derived hm hbase rest ih =>
    refine List.nodup_cons.2 ⟨fun hmem => ?_, ih⟩
    obtain ⟨above, habove, hsuffix⟩ := rest.exists_suffix hmem
    rw [habove.unique (.derived hm hbase rest)] at hsuffix
    exact absurd hsuffix.length_le (Nat.not_succ_le_self _)

/-- There are no more types than are declared. -/
theorem length_le_of_nodup {path : List ModelId} (hnodup : path.Nodup)
    (hdeclared : ∀ t ∈ path, ∃ m, c.model t = .ok m) : path.length ≤ c.models.length := by
  have hsubset : path.map ModelId.index ⊆ List.range c.models.length := by
    intro index hindex
    obtain ⟨t, ht, rfl⟩ := List.mem_map.1 hindex
    obtain ⟨m, hm⟩ := hdeclared t ht
    obtain ⟨hlt, -⟩ := List.getElem?_eq_some_iff.1 (found_eq_ok_iff.1 hm)
    exact List.mem_range.2 hlt
  have hinjective : Function.Injective ModelId.index := fun a b h => congrArg ModelId.mk h
  have hlength := ((hnodup.map hinjective).subperm hsubset).length_le
  simpa using hlength

/-- A chain is no longer than there are types. -/
theorem Chain.length_le (h : c.Chain id chain) : chain.length ≤ c.models.length :=
  length_le_of_nodup h.nodup fun _ ht => h.exists_model ht

/-! ## The types above a type -/

/-- The walk may go far enough for every chain. -/
theorem ancestors_eq_ok_iff : c.ancestors id = .ok chain ↔ c.Chain id chain := by
  rw [ancestors, basesWithin_eq_ok_iff]
  exact ⟨And.left, fun h => ⟨h, Nat.le_succ_of_le h.length_le⟩⟩

/-- Ancestors that were listed are a chain. -/
theorem chain_of_ancestors (h : c.ancestors id = .ok chain) : c.Chain id chain :=
  ancestors_eq_ok_iff.1 h

/-- The types above a type that is itself above: what is left of the chain. -/
theorem exists_ancestors_suffix (h : c.ancestors id = .ok chain) (ha : ancestor ∈ chain) :
    ∃ above, c.ancestors ancestor = .ok above ∧ above <:+ chain := by
  obtain ⟨above, habove, hsuffix⟩ := (chain_of_ancestors h).exists_suffix ha
  exact ⟨above, ancestors_eq_ok_iff.2 habove, hsuffix⟩

/-- Whether a type is assignable is answered where its ancestors can be listed. -/
theorem isAssignable_eq_ok_iff {b : Bool} : c.isAssignable id ancestor = .ok b ↔
    ∃ chain, c.ancestors id = .ok chain ∧ (b = true ↔ ancestor ∈ chain) := by
  rw [isAssignable, bind_eq_ok_iff]
  refine exists_congr fun chain => and_congr_right fun _ => ?_
  rw [← List.contains_iff_mem]
  cases b <;> cases chain.contains ancestor <;> simp [pure, Except.pure]

/-- A type is assignable to its ancestors, itself among them, and to nothing else. -/
theorem isAssignable_eq_true_iff : c.isAssignable id ancestor = .ok true ↔
    ∃ chain, c.ancestors id = .ok chain ∧ ancestor ∈ chain := by
  simp only [isAssignable_eq_ok_iff, true_iff]

/-- A type is assignable to itself. -/
theorem isAssignable_self (h : c.ancestors id = .ok chain) : c.isAssignable id id = .ok true :=
  isAssignable_eq_true_iff.2 ⟨chain, h, (chain_of_ancestors h).mem_self⟩

/-- A type below another one is strictly below it, unless it is that type. -/
theorem isStrictSubtype_of_isAssignable (h : c.isAssignable id ancestor = .ok true) :
    c.isStrictSubtype id ancestor = .ok (!decide (id = ancestor)) := by
  rw [isStrictSubtype]
  split
  · rename_i heq
    rw [decide_eq_true heq]
    rfl
  · rename_i hne
    rw [h, decide_eq_false hne]
    rfl

/-- Ancestors of ancestors are ancestors. -/
theorem isAssignable_trans {further : ModelId} (h : c.isAssignable id ancestor = .ok true)
    (h' : c.isAssignable ancestor further = .ok true) : c.isAssignable id further = .ok true := by
  obtain ⟨chain, hchain, ha⟩ := isAssignable_eq_true_iff.1 h
  obtain ⟨above, habove, hf⟩ := isAssignable_eq_true_iff.1 h'
  obtain ⟨above', habove', hsuffix⟩ := exists_ancestors_suffix hchain ha
  cases habove.symm.trans habove'
  exact isAssignable_eq_true_iff.2 ⟨chain, hchain, hsuffix.mem hf⟩

/-- Types that are above each other are one. -/
theorem isAssignable_antisymm (h : c.isAssignable id ancestor = .ok true)
    (h' : c.isAssignable ancestor id = .ok true) : id = ancestor := by
  obtain ⟨chain, hchain, ha⟩ := isAssignable_eq_true_iff.1 h
  obtain ⟨above, habove, hid⟩ := isAssignable_eq_true_iff.1 h'
  obtain ⟨above', habove', hsuffix⟩ := exists_ancestors_suffix hchain ha
  cases habove.symm.trans habove'
  obtain ⟨chain', hchain', hsuffix'⟩ := exists_ancestors_suffix habove hid
  cases hchain.symm.trans hchain'
  obtain rfl : above = chain :=
    hsuffix.eq_of_length (Nat.le_antisymm hsuffix.length_le hsuffix'.length_le)
  exact Option.some.inj
    ((chain_of_ancestors hchain).head?_eq.symm.trans (chain_of_ancestors habove).head?_eq)

/-- What is strictly below is below, and not the other way round. -/
theorem isStrictSubtype_eq_true_iff : c.isStrictSubtype id ancestor = .ok true ↔
    c.isAssignable id ancestor = .ok true ∧ c.isAssignable ancestor id ≠ .ok true := by
  rw [isStrictSubtype]
  by_cases heq : id = ancestor
  · rw [if_pos heq, heq]
    exact ⟨nofun, fun h => absurd h.1 h.2⟩
  · rw [if_neg heq]
    exact ⟨fun h => ⟨h, fun h' => heq (isAssignable_antisymm h h')⟩, And.left⟩

/-- On its way up a chain each type is below all that follow. -/
theorem pairwise_of_ancestors (h : c.ancestors id = .ok chain) :
    chain.Pairwise fun a b => c.isAssignable a b = .ok true := by
  rw [ancestors_eq_ok_iff] at h
  induction h with
  | root => exact List.pairwise_singleton _ _
  | derived hm hbase rest ih =>
    have habove := ancestors_eq_ok_iff.2 (.derived hm hbase rest)
    exact List.pairwise_cons.2 ⟨fun a ha =>
      isAssignable_eq_true_iff.2 ⟨_, habove, List.mem_cons_of_mem _ ha⟩, ih⟩

/-- The root of a type is above it. -/
theorem isAssignable_root {root : ModelId} (h : c.root id = .ok root) :
    c.isAssignable id root = .ok true := by
  obtain ⟨chain, hchain, hr⟩ := bind_eq_ok_iff.1 h
  cases hr
  refine isAssignable_eq_true_iff.2 ⟨chain, hchain, ?_⟩
  rw [List.getLastD_eq_getLast?, List.getLast?_eq_some_getLast (chain_of_ancestors hchain).ne_nil]
  exact List.getLast_mem _

/-- A type and the types above it have one root. -/
theorem root_eq_of_isAssignable (h : c.isAssignable id ancestor = .ok true) :
    ∃ root, c.root id = .ok root ∧ c.root ancestor = .ok root := by
  obtain ⟨chain, hchain, ha⟩ := isAssignable_eq_true_iff.1 h
  obtain ⟨above, habove, hsuffix⟩ := exists_ancestors_suffix hchain ha
  have hne := (chain_of_ancestors habove).ne_nil
  obtain ⟨below, rfl⟩ := hsuffix
  refine ⟨above.getLast hne, bind_eq_ok_iff.2 ⟨_, hchain, ?_⟩, bind_eq_ok_iff.2 ⟨_, habove, ?_⟩⟩
  · rw [List.getLastD_eq_getLast?, List.getLast?_append_of_ne_nil below hne,
      List.getLast?_eq_some_getLast hne]
    rfl
  · rw [List.getLastD_eq_getLast?, List.getLast?_eq_some_getLast hne]
    rfl

/-- A type and the types above it have one key. -/
theorem keyFields_eq_of_isAssignable (h : c.isAssignable id ancestor = .ok true) :
    c.keyFields id = c.keyFields ancestor := by
  obtain ⟨root, hid, hancestor⟩ := root_eq_of_isAssignable h
  rw [keyFields, hid, keyFields, hancestor]

/-- A type that has a base type has the key of its base type. -/
theorem keyFields_of_base {m : Model} {base : ModelId} {key : List FieldId}
    (hm : c.model id = .ok m) (hbase : m.base? = some base) (h : c.keyFields id = .ok key) :
    c.keyFields base = .ok key := by
  obtain ⟨root, hroot, -⟩ := bind_eq_ok_iff.1 h
  obtain ⟨chain, hchain, -⟩ := bind_eq_ok_iff.1 hroot
  have hmem : base ∈ chain := by
    cases chain_of_ancestors hchain with
    | root hm' hnone =>
      cases hm.symm.trans hm'
      cases hbase.symm.trans hnone
    | derived hm' hbase' rest =>
      cases hm.symm.trans hm'
      cases hbase.symm.trans hbase'
      cases rest <;> simp
  rw [← keyFields_eq_of_isAssignable (isAssignable_eq_true_iff.2 ⟨chain, hchain, hmem⟩), h]

/-- A type without a base type has the key that it declares. -/
theorem keyFields_of_root {m : Model} {key : List FieldId} (hm : c.model id = .ok m)
    (hbase : m.base? = none) (h : c.keyFields id = .ok key) :
    key = (m.entity?.map EntityType.key).getD [] := by
  obtain ⟨root, hroot, h⟩ := bind_eq_ok_iff.1 h
  obtain ⟨chain, hchain, hr⟩ := bind_eq_ok_iff.1 hroot
  cases chain_of_ancestors hchain with
  | root =>
    cases hr
    obtain ⟨m', hm', hr⟩ := bind_eq_ok_iff.1 h
    cases hm.symm.trans hm'
    cases hr
    rfl
  | derived hm' hbase' =>
    cases hm.symm.trans hm'
    cases hbase.symm.trans hbase'

/-- The root above a type is declared, so the key can be read. -/
theorem exists_keyFields (h : c.ancestors id = .ok chain) : ∃ key, c.keyFields id = .ok key := by
  have hroot : c.root id = .ok (chain.getLastD id) := bind_eq_ok_iff.2 ⟨chain, h, rfl⟩
  obtain ⟨chain', hchain', hmem⟩ := isAssignable_eq_true_iff.1 (isAssignable_root hroot)
  obtain ⟨m, hm⟩ := (chain_of_ancestors hchain').exists_model hmem
  exact ⟨_, bind_eq_ok_iff.2 ⟨_, hroot, bind_eq_ok_iff.2 ⟨m, hm, rfl⟩⟩⟩

/-! ## Fields -/

/-- The fields that are declared are those that can be looked up. -/
theorem field_eq_ok_iff {f : FieldId} {declared : Field} : c.field f = .ok declared ↔
    ∃ m, c.model f.model = .ok m ∧ m.fields[f.index]? = some declared := by
  rw [field, bind_eq_ok_iff]
  exact exists_congr fun m => and_congr_right fun _ => found_eq_ok_iff

/-- The fields of a model are declared. -/
theorem exists_field_of_mem {id : ModelId} {m : Model} (hm : c.model id = .ok m) {f : FieldId}
    (hf : f ∈ m.fieldIds id) : f.model = id ∧ ∃ declared, c.field f = .ok declared := by
  obtain ⟨rfl, hindex⟩ := Model.mem_fieldIds_iff.1 hf
  exact ⟨rfl, _, field_eq_ok_iff.2 ⟨m, hm, List.getElem?_eq_getElem hindex⟩⟩

/-- Every type above a type is declared, so its fields can be listed. -/
theorem exists_allFields (h : c.ancestors id = .ok chain) :
    ∃ fields, c.allFields id = .ok fields := by
  have hmodel : ∀ owner ∈ chain.reverse, ∃ ids, (do
      return (← c.model owner).fieldIds owner : Except Fault (List FieldId)) = .ok ids := by
    intro owner howner
    obtain ⟨m, hm⟩ := (chain_of_ancestors h).exists_model (List.mem_reverse.1 howner)
    exact ⟨_, bind_eq_ok_iff.2 ⟨m, hm, rfl⟩⟩
  obtain ⟨groups, hgroups⟩ := exists_mapM_eq_ok hmodel
  exact ⟨groups.flatten, bind_eq_ok_iff.2 ⟨chain, h, bind_eq_ok_iff.2 ⟨groups, hgroups, rfl⟩⟩⟩

/-- The fields of a type are those that it and the types above it declare. -/
theorem mem_allFields_iff {fields : List FieldId} (h : c.allFields id = .ok fields)
    {f : FieldId} : f ∈ fields ↔
      c.isAssignable id f.model = .ok true ∧ ∃ declared, c.field f = .ok declared := by
  obtain ⟨chain, hchain, h⟩ := bind_eq_ok_iff.1 h
  obtain ⟨groups, hgroups, hr⟩ := bind_eq_ok_iff.1 h
  cases hr
  -- a field is declared if its place is one of those that its type has fields in
  have hdeclared : (∃ declared, c.field f = .ok declared) ↔
      ∃ m, c.model f.model = .ok m ∧ f.index < m.fields.length := by
    simp only [field_eq_ok_iff, List.getElem?_eq_some_iff]
    constructor
    · rintro ⟨declared, m, hm, hindex, -⟩
      exact ⟨m, hm, hindex⟩
    · rintro ⟨m, hm, hindex⟩
      exact ⟨_, m, hm, hindex, rfl⟩
  rw [isAssignable_eq_true_iff, hdeclared, List.mem_flatten]
  constructor
  · rintro ⟨ids, hids, hf⟩
    obtain ⟨owner, howner, h⟩ := exists_of_mem_mapM hgroups hids
    obtain ⟨m, hm, hr⟩ := bind_eq_ok_iff.1 h
    cases hr
    obtain ⟨rfl, hindex⟩ := Model.mem_fieldIds_iff.1 hf
    exact ⟨⟨chain, hchain, List.mem_reverse.1 howner⟩, m, hm, hindex⟩
  · rintro ⟨⟨chain', hchain', hf⟩, m, hm, hindex⟩
    cases hchain.symm.trans hchain'
    obtain ⟨ids, hids, h⟩ := exists_mem_of_mapM hgroups (List.mem_reverse.2 hf)
    obtain ⟨m', hm', hr⟩ := bind_eq_ok_iff.1 h
    cases hm.symm.trans hm'
    cases hr
    exact ⟨_, hids, Model.mem_fieldIds_iff.2 ⟨rfl, hindex⟩⟩

end Conceptual

end QueryViews
