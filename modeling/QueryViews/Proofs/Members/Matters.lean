import QueryViews.Proofs.Members.Embedding

/-!
# Which members matter

A member of a type matters in an entity set for one of six reasons (`Schema.Matters`). Each reason
is said of the schema as a whole: of any association set that binds the entity set, of any field
below the type, of any fragment that applies to it. The six searches find what matters for their
own reason, and in a built schema none of them fails, as long as no type below the type is embedded
in itself. So a question about a type that the set can hold is answered with all members that
matter, each once (`Schema.Built.interestingMembers_spec`).
-/

namespace QueryViews

open Relation

/-- Why a member matters. -/
inductive Reason
  | key
  | mappedEnd
  | token
  | condition
  | foreignKey
  | parameter

namespace Schema

/-- A member of the type matters in the entity set for a reason. -/
inductive Matters (s : Schema) (set : EntitySetId) (type : ModelId) (scenario : Scenario) :
    Reason → Member → Prop
  /-- it is part of the key, and values are tracked as first read -/
  | key {key : List FieldId} {f : FieldId} (hscenario : scenario = .tracking)
    (hkey : s.conceptual.keyFields type = .ok key) (hf : f ∈ key) :
    Matters s set type scenario .key (.field f)
  /-- it is across from an end that the set is bound to and that the type can stand at, in an
  association set with a mapping of its own -/
  | mappedEnd {id : AssociationSetId} {bound : AssociationSet} {index : Nat} {near : AssociationEnd}
    (hset : s.conceptual.associationSet id = .ok bound) (hbound : bound.ends.get? index = some set)
    (hmapped : (s.mapping.extent? (.associationSet id)).isSome)
    (hnear : s.conceptual.associationEnd ⟨bound.association, index⟩ = .ok near)
    (hassignable : s.conceptual.isAssignable type near.model = .ok true) :
    Matters s set type scenario .mappedEnd (.farEnd ⟨bound.association, 1 - index⟩)
  /-- it is somewhere below the type, and a token or around one -/
  | token {fields : List FieldId} {f g : FieldId}
    (hfields : s.conceptual.allFields type = .ok fields) (hf : f ∈ fields)
    (hg : ReflTransGen s.conceptual.Nests f g) (hguards : s.conceptual.Guards g) :
    Matters s set type scenario .token (.field g)
  /-- it is tested by a condition in a fragment for the type -/
  | condition {mapping : ExtentMapping} {types : TypeMapping} {fragment : Fragment}
    {condition : Condition} {f : FieldId}
    (hmapping : s.mapping.extent? (.entitySet set) = some mapping)
    (htypes : types ∈ mapping.typeMappings)
    (happlies : type ∈ types.types ∨
      ∃ t ∈ types.isOfTypes, s.conceptual.isAssignable type t = .ok true)
    (hfragment : fragment ∈ types.fragments) (hcondition : condition ∈ fragment.conditions)
    (htarget : condition.target = .field f) : Matters s set type scenario .condition (.field f)
  /-- it is a source of the foreign key that encodes an association, and whose dependent end the
  set is bound to and the type can stand at -/
  | foreignKey {id : AssociationSetId} {bound : AssociationSet} {a : Association} {fk : ForeignKey}
    {dependent : AssociationEnd} {pair : ForeignKeyField}
    (hset : s.conceptual.associationSet id = .ok bound)
    (ha : s.conceptual.association bound.association = .ok a) (hforeign : a.isForeignKey)
    (hone : a.constraints = [fk]) (hbound : bound.ends.get? fk.dependent = some set)
    (hdependent : a.ends.get? fk.dependent = some dependent)
    (hassignable : s.conceptual.isAssignable type dependent.model = .ok true)
    (hpair : pair ∈ fk.fields) : Matters s set type scenario .foreignKey (.field pair.source)
  /-- the way to the value of a parameter of a stored procedure for the type begins at it, and the
  version of the value is needed -/
  | parameterPath {mapping : ExtentMapping} {function : FunctionMapping}
    {binding : ParameterBinding} {f : FieldId} {rest : List FieldId}
    (hmapping : s.mapping.extent? (.entitySet set) = some mapping)
    (hfunction : function ∈ mapping.functions) (htype : function.type = type)
    (hbinding : binding ∈ function.parameters)
    (hversion : scenario = .partialUpdate ∨ binding.version = .firstRead)
    (hmember : binding.member = .path (f :: rest)) :
    Matters s set type scenario .parameter (.field f)
  /-- the value of such a parameter is a key field of the entity across from it -/
  | parameterEnd {mapping : ExtentMapping} {function : FunctionMapping}
    {binding : ParameterBinding} {id : EndId} {f : FieldId}
    (hmapping : s.mapping.extent? (.entitySet set) = some mapping)
    (hfunction : function ∈ mapping.functions) (htype : function.type = type)
    (hbinding : binding ∈ function.parameters)
    (hversion : scenario = .partialUpdate ∨ binding.version = .firstRead)
    (hmember : binding.member = .farEnd id f) :
    Matters s set type scenario .parameter (.farEnd id)

/-- The members of a list are those that matter for a reason. -/
def Finds (s : Schema) (set : EntitySetId) (type : ModelId) (scenario : Scenario) (reason : Reason)
    (members : List Member) : Prop :=
  ∀ x, x ∈ members ↔ s.Matters set type scenario reason x

variable {s : Schema} {set : EntitySetId} {type : ModelId} {m : Model} {scenario : Scenario}

/-! ## One reason at a time -/

/-- The key members are found: the fields of the key, where values are tracked as first read. -/
theorem Verified.exists_keyMembers (hv : s.Verified) (hm : s.conceptual.model type = .ok m)
    (set : EntitySetId) (scenario : Scenario) :
    ∃ l, s.keyMembers type scenario = .ok l ∧ s.Finds set type scenario .key l := by
  obtain ⟨chain, hchain⟩ := hv.exists_ancestors hm
  obtain ⟨key, hkey⟩ := Conceptual.exists_keyFields hchain
  by_cases hscenario : scenario = .tracking
  · subst hscenario
    refine ⟨key.map .field, bind_eq_ok_iff.2 ⟨key, hkey, rfl⟩, fun x => ?_⟩
    rw [List.mem_map]
    constructor
    · rintro ⟨f, hf, rfl⟩
      exact .key rfl hkey hf
    · intro h
      cases h with
      | key _ hkey' hf =>
        cases hkey.symm.trans hkey'
        exact ⟨_, hf, rfl⟩
  · refine ⟨[], ?_, fun x => ⟨nofun, fun h => ?_⟩⟩
    · cases scenario with
      | tracking => exact absurd rfl hscenario
      | fullUpdate | partialUpdate => rfl
    · cases h with
      | key hscenario' => exact absurd hscenario' hscenario

/-- An association set that binds the entity set touches it: sets are bound in their own container
only. -/
theorem Verified.touching_of_bound (hv : s.Verified) {id : AssociationSetId}
    {bound : AssociationSet} (hset : s.conceptual.associationSet id = .ok bound) {index : Nat}
    (hbound : bound.ends.get? index = some set) : id.container = set.container := by
  obtain ⟨a, ha⟩ := hv.exists_association hset
  obtain ⟨e, he⟩ := a.ends.exists_get? (lt_two_of_get?_eq_some hbound)
  exact (hv.bound_end hset ha hbound he).1.symm

/-- The ends of mapped association sets are found, and are those at which the entity set and the
type fit. -/
theorem Verified.exists_mappedEnds (hv : s.Verified) {owner : Container}
    (howner : s.conceptual.container set.container = .ok owner)
    (hm : s.conceptual.model type = .ok m) (scenario : Scenario) :
    ∃ l, s.mappedEnds set type = .ok l ∧ s.Finds set type scenario .mappedEnd l := by
  obtain ⟨touching, htouching⟩ := Conceptual.exists_touching howner
  have hmem := @Conceptual.mem_touching_iff _ _ _ htouching
  -- the test of an end is never in error: what is bound in a verified schema is there
  obtain ⟨reachable, hreachable⟩ : ∃ reachable, select (fun p => do
      let near ← s.conceptual.associationEnd ⟨p.2.1.association, p.2.2⟩
      s.conceptual.isAssignable type near.model) (touching.filter fun p =>
        (s.mapping.extent? (.associationSet p.1)).isSome) = .ok reachable := by
    refine exists_select_eq_ok fun ⟨id, bound, index⟩ hp => ?_
    obtain ⟨-, hset, hbound⟩ := hmem.1 (List.mem_of_mem_filter hp)
    obtain ⟨a, ha⟩ := hv.exists_association hset
    obtain ⟨near, hnear⟩ := a.ends.exists_get? (lt_two_of_get?_eq_some hbound)
    obtain ⟨b, hb⟩ := hv.exists_isAssignable hm near.model
    exact ⟨b, bind_eq_ok_iff.2 ⟨near, Conceptual.associationEnd_eq_ok_iff.2 ⟨a, ha, hnear⟩, hb⟩⟩
  refine ⟨_, bind_eq_ok_iff.2 ⟨touching, htouching, bind_eq_ok_iff.2 ⟨reachable, hreachable, rfl⟩⟩,
    fun x => ?_⟩
  have hfound := (mem_of_select_eq_ok hreachable).2
  rw [List.mem_map]
  constructor
  · rintro ⟨⟨id, bound, index⟩, hp, rfl⟩
    obtain ⟨hp, htest⟩ := (hfound _).1 hp
    obtain ⟨hp, hmapped⟩ := List.mem_filter.1 hp
    obtain ⟨-, hset, hbound⟩ := hmem.1 hp
    obtain ⟨near, hnear, hassignable⟩ := bind_eq_ok_iff.1 htest
    exact .mappedEnd hset hbound hmapped hnear hassignable
  · intro h
    cases h with
    | @mappedEnd id bound index near hset hbound hmapped hnear hassignable =>
      refine ⟨(id, bound, index), (hfound _).2 ⟨List.mem_filter.2 ⟨hmem.2 ?_, hmapped⟩, ?_⟩, rfl⟩
      · exact ⟨hv.touching_of_bound hset hbound, hset, hbound⟩
      · exact bind_eq_ok_iff.2 ⟨near, hnear, hassignable⟩

/-- The fields compared for concurrency are found if no type embeds itself: otherwise the search
would not end. -/
theorem Verified.exists_tokenMembers (hv : s.Verified) (hm : s.conceptual.model type = .ok m)
    (hgrounded : ∀ fields, s.conceptual.allFields type = .ok fields →
      ∀ f ∈ fields, s.conceptual.Grounded f) (set : EntitySetId) (scenario : Scenario) :
    ∃ l, s.tokenMembers type = .ok l ∧ s.Finds set type scenario .token l := by
  obtain ⟨chain, hchain⟩ := hv.exists_ancestors hm
  obtain ⟨fields, hfields⟩ := Conceptual.exists_allFields hchain
  -- the walk below a field ends because the field is declared and grounded
  obtain ⟨groups, hgroups⟩ : ∃ groups, fields.mapM (s.tokens (s.conceptual.models.length + 1)) =
      .ok groups := by
    refine exists_mapM_eq_ok fun f hf => ?_
    obtain ⟨-, declared, hdeclared⟩ := (Conceptual.mem_allFields_iff hfields).1 hf
    exact hv.exists_tokens hdeclared (hgrounded fields hfields f hf)
  refine ⟨_, bind_eq_ok_iff.2 ⟨fields, hfields, bind_eq_ok_iff.2 ⟨groups, hgroups, rfl⟩⟩,
    fun x => ?_⟩
  simp only [List.mem_map, List.mem_flatten]
  constructor
  · rintro ⟨g, ⟨group, hgroup, hg⟩, rfl⟩
    obtain ⟨f, hf, hwalk⟩ := exists_of_mem_mapM hgroups hgroup
    obtain ⟨hwithin, hguards⟩ := (mem_tokens_iff hwalk).1 hg
    exact .token hfields hf hwithin hguards
  · intro h
    cases h with
    | token hfields' hf hwithin hguards =>
      cases hfields.symm.trans hfields'
      obtain ⟨group, hgroup, hwalk⟩ := exists_mem_of_mapM hgroups hf
      exact ⟨_, ⟨group, hgroup, (mem_tokens_iff hwalk).2 ⟨hwithin, hguards⟩⟩, rfl⟩

/-- A type mapping applies to the types that it names, and to those below a type that it names
together with its subtypes. -/
theorem appliesTo_iff {types : TypeMapping} {chain : List ModelId}
    (hchain : s.conceptual.ancestors type = .ok chain) : types.appliesTo type chain = true ↔
      type ∈ types.types ∨ ∃ t ∈ types.isOfTypes, s.conceptual.isAssignable type t = .ok true := by
  have hself : type ∈ chain := (Conceptual.chain_of_ancestors hchain).mem_self
  have habove (t : ModelId) : s.conceptual.isAssignable type t = .ok true ↔ t ∈ chain := by
    rw [Conceptual.isAssignable_eq_true_iff, hchain]
    simp
  simp only [TypeMapping.appliesTo, Bool.or_eq_true, List.contains_iff_mem, List.any_eq_true,
    decide_eq_true_eq, habove]
  refine or_congr_right (exists_congr fun t => and_congr_right fun _ => ?_)
  exact ⟨fun h => h.elim (fun heq => heq ▸ hself) id, .inr⟩

/-- The fields that conditions are about are found. -/
theorem Verified.exists_conditionMembers (hv : s.Verified) (hm : s.conceptual.model type = .ok m)
    (set : EntitySetId) (scenario : Scenario) :
    ∃ l, s.conditionMembers set type = .ok l ∧ s.Finds set type scenario .condition l := by
  obtain ⟨chain, hchain⟩ := hv.exists_ancestors hm
  rw [conditionMembers]
  cases hmapping : s.mapping.extent? (.entitySet set) with
  | none =>
    refine ⟨[], rfl, fun x => ⟨nofun, fun h => ?_⟩⟩
    cases h with
    | condition hmapping' => cases hmapping.symm.trans hmapping'
  | some mapping =>
    refine ⟨_, bind_eq_ok_iff.2 ⟨chain, hchain, rfl⟩, fun x => ?_⟩
    simp only [List.mem_flatMap, List.mem_filter, List.mem_filterMap, appliesTo_iff hchain]
    constructor
    · rintro ⟨fragment, ⟨types, ⟨htypes, happlies⟩, hfragment⟩, condition, hcondition, hx⟩
      split at hx
      · rename_i f htarget
        cases hx
        exact .condition hmapping htypes happlies hfragment hcondition htarget
      · cases hx
    · intro h
      cases h with
      | condition hmapping' htypes happlies hfragment hcondition htarget =>
        cases hmapping.symm.trans hmapping'
        exact ⟨_, ⟨_, ⟨htypes, happlies⟩, hfragment⟩, _, hcondition, by rw [htarget]⟩

/-- The source fields that `Schema.foreignKeyMembers` finds where the entity set is bound to one end
of an association set. -/
def sourcesAt (s : Schema) (type : ModelId) (bound : AssociationSet) (index : Nat) :
    Except Fault (List Member) := do
  let a ← s.conceptual.association bound.association
  match a.foreignKey? with
  | none => return []
  | some fk =>
    if index ≠ fk.dependent then return []
    else
      let near ← s.conceptual.associationEnd ⟨bound.association, index⟩
      if ← s.conceptual.isAssignable type near.model then
        return fk.fields.map fun pair => .field pair.source
      else
        return []

/-- The source fields of foreign keys are looked for in the association sets that touch the entity
set, one by one. -/
theorem foreignKeyMembers_eq (s : Schema) (set : EntitySetId) (type : ModelId) :
    s.foreignKeyMembers set type = do
      let touching ← s.conceptual.touching set
      let groups ← touching.mapM fun p => s.sourcesAt type p.2.1 p.2.2
      return groups.flatten := rfl

/-- The sources matter if the foreign key has its dependent end there and the type can stand at
it. -/
theorem sourcesAt_eq {bound : AssociationSet} {index : Nat} {a : Association}
    {near : AssociationEnd} {b : Bool}
    (ha : s.conceptual.association bound.association = .ok a)
    (hnear : a.ends.get? index = some near)
    (hb : s.conceptual.isAssignable type near.model = .ok b) :
    s.sourcesAt type bound index =
      .ok ((a.foreignKey?.toList.filter fun fk => decide (fk.dependent = index) && b).flatMap
        fun fk => fk.fields.map fun pair => .field pair.source) := by
  have hend : s.conceptual.associationEnd ⟨bound.association, index⟩ = .ok near :=
    Conceptual.associationEnd_eq_ok_iff.2 ⟨a, ha, hnear⟩
  refine bind_eq_ok_iff.2 ⟨a, ha, ?_⟩
  cases hfk : a.foreignKey? with
  | none => rfl
  | some fk =>
    by_cases hindex : fk.dependent = index
    · subst hindex
      cases b <;> simp [hend, hb, bind, Except.bind, pure, Except.pure]
    · simp [hindex, Ne.symm hindex, pure, Except.pure]

/-- Where the set is bound to one end, the source fields are found, and are those of a foreign key
whose dependent end that is. -/
theorem Verified.exists_sourcesAt (hv : s.Verified) (hm : s.conceptual.model type = .ok m)
    {id : AssociationSetId} {bound : AssociationSet}
    (hset : s.conceptual.associationSet id = .ok bound) {index : Nat}
    (hbound : bound.ends.get? index = some set) :
    ∃ l, s.sourcesAt type bound index = .ok l ∧ ∀ x, x ∈ l ↔ ∃ a fk dependent pair,
      s.conceptual.association bound.association = .ok a ∧ a.foreignKey? = some fk ∧
      fk.dependent = index ∧ a.ends.get? fk.dependent = some dependent ∧
      s.conceptual.isAssignable type dependent.model = .ok true ∧ pair ∈ fk.fields ∧
      .field pair.source = x := by
  obtain ⟨a, ha⟩ := hv.exists_association hset
  obtain ⟨near, hnear⟩ := a.ends.exists_get? (lt_two_of_get?_eq_some hbound)
  obtain ⟨b, hb⟩ := hv.exists_isAssignable hm near.model
  refine ⟨_, sourcesAt_eq ha hnear hb, fun x => ?_⟩
  simp only [List.mem_flatMap, List.mem_filter, Option.mem_toList, Bool.and_eq_true,
    decide_eq_true_eq, List.mem_map]
  constructor
  · rintro ⟨fk, ⟨hfk, rfl, rfl⟩, pair, hpair, rfl⟩
    exact ⟨a, fk, near, pair, ha, hfk, rfl, hnear, hb, hpair, rfl⟩
  · rintro ⟨a', fk, dependent, pair, ha', hfk, rfl, hdependent, hassignable, hpair, rfl⟩
    cases ha.symm.trans ha'
    cases hnear.symm.trans hdependent
    cases hb.symm.trans hassignable
    exact ⟨fk, ⟨hfk, rfl, rfl⟩, pair, hpair, rfl⟩

/-- The source fields of foreign keys are found. -/
theorem Verified.exists_foreignKeyMembers (hv : s.Verified) {owner : Container}
    (howner : s.conceptual.container set.container = .ok owner)
    (hm : s.conceptual.model type = .ok m) (scenario : Scenario) :
    ∃ l, s.foreignKeyMembers set type = .ok l ∧ s.Finds set type scenario .foreignKey l := by
  obtain ⟨touching, htouching⟩ := Conceptual.exists_touching howner
  have hmem := @Conceptual.mem_touching_iff _ _ _ htouching
  have hsources (p) (hp : p ∈ touching) := hv.exists_sourcesAt hm (hmem.1 hp).2.1 (hmem.1 hp).2.2
  obtain ⟨groups, hgroups⟩ := exists_mapM_eq_ok fun p hp =>
    (hsources p hp).imp fun _ h => h.1
  refine ⟨groups.flatten, ?_, fun x => ?_⟩
  · rw [foreignKeyMembers_eq]
    exact bind_eq_ok_iff.2 ⟨touching, htouching, bind_eq_ok_iff.2 ⟨groups, hgroups, rfl⟩⟩
  -- each group is what one end of one association set gives
  rw [List.mem_flatten]
  constructor
  · rintro ⟨group, hgroup, hx⟩
    obtain ⟨⟨id, bound, index⟩, hp, hsame⟩ := exists_of_mem_mapM hgroups hgroup
    obtain ⟨-, hset, hbound⟩ := hmem.1 hp
    obtain ⟨group', hgroup', hiff⟩ := hsources _ hp
    cases hsame.symm.trans hgroup'
    obtain ⟨a, fk, dependent, pair, ha, hfk, rfl, hdependent, hassignable, hpair, rfl⟩ :=
      (hiff x).1 hx
    obtain ⟨hforeign, hone⟩ := Association.foreignKey?_eq_some_iff.1 hfk
    exact .foreignKey hset ha hforeign hone hbound hdependent hassignable hpair
  · intro h
    cases h with
    | @foreignKey id bound a fk dependent pair hset ha hforeign hone hbound hdependent hassignable
        hpair =>
      have hfk := Association.foreignKey?_eq_some_iff.2 ⟨hforeign, hone⟩
      have hp := hmem.2 ⟨hv.touching_of_bound hset hbound, hset, hbound⟩
      obtain ⟨group, hgroup, hsame⟩ := exists_mem_of_mapM hgroups hp
      obtain ⟨group', hgroup', hiff⟩ := hsources _ hp
      cases hsame.symm.trans hgroup'
      exact ⟨group, hgroup, (hiff _).2
        ⟨a, fk, dependent, pair, ha, hfk, rfl, hdependent, hassignable, hpair, rfl⟩⟩

/-- What the parameters of functions take from the entity or from the far ends of relationships is
found. -/
theorem parameterMembers_finds (s : Schema) (set : EntitySetId) (type : ModelId)
    (scenario : Scenario) :
    s.Finds set type scenario .parameter (s.parameterMembers set type scenario) := by
  intro x
  rw [parameterMembers]
  cases hmapping : s.mapping.extent? (.entitySet set) with
  | none =>
    refine ⟨nofun, fun h => ?_⟩
    cases h with
    | parameterPath hmapping' | parameterEnd hmapping' => cases hmapping.symm.trans hmapping'
  | some mapping =>
    simp only [List.mem_filterMap, List.mem_filter, List.mem_flatMap, Bool.or_eq_true,
      decide_eq_true_eq]
    constructor
    · rintro ⟨binding, ⟨⟨function, ⟨hfunction, htype⟩, hbinding⟩, hversion⟩, hx⟩
      cases hmember : binding.member with
      | path fields =>
        rw [hmember] at hx
        cases fields with
        -- a path without fields leads nowhere
        | nil => cases hx
        | cons f rest =>
          cases hx
          exact .parameterPath hmapping hfunction htype hbinding hversion hmember
      | farEnd id f =>
        rw [hmember] at hx
        cases hx
        exact .parameterEnd hmapping hfunction htype hbinding hversion hmember
    · intro h
      cases h with
      | parameterPath hmapping' hfunction htype hbinding hversion hmember
      | parameterEnd hmapping' hfunction htype hbinding hversion hmember =>
        cases hmapping.symm.trans hmapping'
        exact ⟨_, ⟨⟨_, ⟨hfunction, htype⟩, hbinding⟩, hversion⟩, by rw [hmember]; rfl⟩

/-! ## All of them -/

/-- No element is listed twice once duplicates are gone. -/
theorem nodup_eraseDups {α : Type} [DecidableEq α] (l : List α) : l.eraseDups.Nodup := by
  induction hlength : l.length using Nat.strong_induction_on generalizing l with
  | _ n ih =>
    cases l with
    | nil => exact List.nodup_nil
    | cons a l =>
      rw [List.eraseDups_cons]
      have hshorter : (l.filter fun b => !b == a).length < n :=
        hlength ▸ Nat.lt_succ_of_le (List.length_filter_le _ _)
      refine List.nodup_cons.2 ⟨fun hmem => ?_, ih _ hshorter _ rfl⟩
      simpa using List.mem_eraseDups.1 hmem

/-- **All that matters, and nothing else.** Let no type that is embedded below a type be embedded in
itself. Asking a built schema for the members of the type that matter in an entity set

* is refused if the set cannot hold the type, and only then;
* is answered otherwise with the members that matter for some reason, each of them once. -/
theorem Built.interestingMembers_spec (hs : s.Built) {element : EntitySet}
    (hset : s.conceptual.entitySet set = .ok element) (hm : s.conceptual.model type = .ok m)
    (hgrounded : ∀ fields, s.conceptual.allFields type = .ok fields →
      ∀ f ∈ fields, s.conceptual.Grounded f) (scenario : Scenario) :
    (s.conceptual.isAssignable type element.model = .ok false ∧
      s.interestingMembers set type scenario = refuse (.plain
        s!"type `{m.name}` cannot be stored in entity set `{element.name}`")) ∨
    (s.conceptual.isAssignable type element.model = .ok true ∧
      ∃ members, s.interestingMembers set type scenario = .ok members ∧ members.Nodup ∧
        ∀ x, x ∈ members ↔ ∃ reason, s.Matters set type scenario reason x) := by
  have hv := hs.verified
  obtain ⟨owner, howner, -⟩ := Conceptual.entitySet_eq_ok_iff.1 hset
  have helement : s.elementType set = .ok element.model := bind_eq_ok_iff.2 ⟨element, hset, rfl⟩
  obtain ⟨b, hb⟩ := hv.exists_isAssignable hm element.model
  rw [interestingMembers, helement]
  cases b with
  | false =>
    refine .inl ⟨hb, ?_⟩
    simp [hb, hm, hset, refuse, bind, Except.bind, liftM, monadLift, MonadLift.monadLift]
  | true =>
    -- a list for each reason, in the order in which they are put together
    obtain ⟨key, hkey, hkey'⟩ := hv.exists_keyMembers hm set scenario
    obtain ⟨ends, hends, hends'⟩ := hv.exists_mappedEnds howner hm scenario
    obtain ⟨tokens, htokens, htokens'⟩ := hv.exists_tokenMembers hm hgrounded set scenario
    obtain ⟨conditions, hconditions, hconditions'⟩ := hv.exists_conditionMembers hm set scenario
    obtain ⟨sources, hsources, hsources'⟩ := hv.exists_foreignKeyMembers howner hm scenario
    have hparameters := s.parameterMembers_finds set type scenario
    refine .inr ⟨hb, _, ?_, nodup_eraseDups (key ++ ends ++ tokens ++ conditions ++ sources ++
      s.parameterMembers set type scenario), fun x => ?_⟩
    · simp [hb, hkey, hends, htokens, hconditions, hsources, bind, Except.bind, pure, Except.pure,
        liftM, monadLift, MonadLift.monadLift]
    · simp only [List.mem_eraseDups, List.mem_append, hkey' x, hends' x, htokens' x, hconditions' x,
        hsources' x, hparameters x]
      constructor
      · rintro (((((h | h) | h) | h) | h) | h) <;> exact ⟨_, h⟩
      · rintro ⟨reason, h⟩
        cases reason <;> simp [h]

end Schema

/-! ## A staff -/

namespace Staff

/-- The set of all persons. -/
def people : EntitySetId := ⟨⟨0⟩, 0⟩

/-- What makes a person one without a boss. -/
def mapping : TypeMapping := ⟨[], [⟨0⟩], [⟨⟨0⟩, [], [⟨.field ⟨⟨0⟩, 2⟩, .isNull⟩]⟩]⟩

/-- Takes the stamp as it was first read, and the number and the staff of a person as they are. -/
def update : FunctionMapping := ⟨⟨0⟩, .update, "update_person", [
  ⟨"stamp", .path [⟨⟨0⟩, 1⟩, ⟨⟨1⟩, 1⟩, ⟨⟨2⟩, 0⟩], .firstRead⟩,
  ⟨"number", .path [⟨⟨0⟩, 0⟩], .current⟩,
  ⟨"staff", .farEnd ⟨⟨0⟩, 0⟩ ⟨⟨0⟩, 0⟩, .current⟩]⟩

/-- Persons, some of whom are managers, with a token deep in their address. The set of all reports
binds the set of all persons at both of its ends. -/
def declarations : List Declaration := [
  .entity "Person", .embedded "Address", .embedded "Mark", .derivedEntity "Manager" ⟨0⟩,
  .field .key ⟨0⟩ "Id" .int32, .embeddedField ⟨0⟩ "Address" ⟨1⟩,
  .field .nullable ⟨0⟩ "BossId" .int32, .field .plain ⟨1⟩ "Street" .text,
  .embeddedField ⟨1⟩ "Mark" ⟨2⟩, .field .token ⟨2⟩ "Stamp" .int64,
  .association "Reports" (⟨0⟩, .many) (⟨3⟩, .zeroOrOne),
  .foreignKey ⟨0⟩ 1 [⟨⟨⟨0⟩, 2⟩, ⟨⟨0⟩, 0⟩⟩], .container "Office",
  .entitySet ⟨0⟩ "People" ⟨0⟩, .associationSet ⟨0⟩ "Reports" ⟨0⟩ ⟨people, people⟩,
  .storeContainer "Db", .table ⟨0⟩ "Person", .mapContainers ⟨0⟩ ⟨0⟩,
  .mapExtent (.associationSet ⟨⟨0⟩, 0⟩) .keep,
  .mapExtent (.entitySet people) (.typeMapping mapping),
  .mapExtent (.entitySet people) (.function update)]

/-- A person has an address with a mark, and the number of a boss; a manager is a person. -/
def models : List Model := [
  ⟨"Person", [⟨"Id", .scalar .int32, false, false⟩, ⟨"Address", .embedded ⟨1⟩, false, false⟩,
    ⟨"BossId", .scalar .int32, true, false⟩], .entity ⟨none, false, [⟨⟨0⟩, 0⟩]⟩⟩,
  ⟨"Address", [⟨"Street", .scalar .text, false, false⟩, ⟨"Mark", .embedded ⟨2⟩, false, false⟩],
    .embedded⟩,
  ⟨"Mark", [⟨"Stamp", .scalar .int64, false, true⟩], .embedded⟩,
  ⟨"Manager", [], .entity ⟨some ⟨0⟩, false, []⟩⟩]

/-- The schema that the declarations make. -/
def schema : Schema where
  conceptual := ⟨models,
    [⟨"Reports", ⟨⟨"Person", ⟨0⟩, .many⟩, ⟨"Manager", ⟨3⟩, .zeroOrOne⟩⟩,
      [⟨1, 0, [⟨⟨⟨0⟩, 2⟩, ⟨⟨0⟩, 0⟩⟩]⟩], true, false⟩],
    [⟨"Office", [⟨"People", ⟨0⟩⟩], [⟨"Reports", ⟨0⟩, ⟨people, people⟩⟩]⟩]⟩
  store := ⟨[⟨"Db", [⟨0⟩]⟩], [⟨⟨0⟩, "Person", [], []⟩]⟩
  mapping := ⟨[⟨⟨0⟩, ⟨0⟩, [.empty (.associationSet ⟨⟨0⟩, 0⟩),
    ⟨.entitySet people, none, [], [mapping], [update]⟩]⟩]⟩

theorem built : schema.Built := ⟨declarations, _, rfl⟩

/-- Every type comes before those that are embedded in it. -/
theorem embeds_later (a b : ModelId) (h : schema.conceptual.Embeds a b) :
    3 - b.index < 3 - a.index := by
  obtain ⟨m, hm, f, hf, htype⟩ := h
  obtain ⟨_ | _ | _ | _ | a⟩ := a <;> cases hm <;> simp at hf
  · rcases hf with rfl | rfl | rfl <;> cases htype
    decide
  · rcases hf with rfl | rfl <;> cases htype
    decide
  · subst hf
    cases htype

/-- The way from the address of a person to the stamp in its mark. -/
theorem stamp_within : ReflTransGen schema.conceptual.Nests ⟨⟨0⟩, 1⟩ ⟨⟨2⟩, 0⟩ := by
  have haddress : schema.conceptual.Nests ⟨⟨0⟩, 1⟩ ⟨⟨1⟩, 1⟩ :=
    ⟨_, _, models[1], rfl, rfl, rfl, by decide⟩
  have hmark : schema.conceptual.Nests ⟨⟨1⟩, 1⟩ ⟨⟨2⟩, 0⟩ :=
    ⟨_, _, models[2], rfl, rfl, rfl, by decide⟩
  exact .tail (.single haddress) hmark

end Staff

namespace Schema

/-- In a partial update of a person the stamp matters, and so does the boss, at whose end only
managers stand. The number, which is the key, and the staff matter as well: they are bound to
parameters, and there is no other reason. -/
theorem staff_members : ∃ members,
    Staff.schema.interestingMembers Staff.people ⟨0⟩ .partialUpdate = .ok members ∧
      members.Nodup ∧ .field ⟨⟨2⟩, 0⟩ ∈ members ∧ .farEnd ⟨⟨0⟩, 1⟩ ∈ members ∧
      .field ⟨⟨0⟩, 0⟩ ∈ members ∧ .farEnd ⟨⟨0⟩, 0⟩ ∈ members := by
  have hset : Staff.schema.conceptual.entitySet Staff.people = .ok ⟨"People", ⟨0⟩⟩ := rfl
  have hm : Staff.schema.conceptual.model ⟨0⟩ = .ok Staff.models[0] := rfl
  rcases Staff.built.interestingMembers_spec hset hm
    (fun _ _ f _ => Conceptual.grounded_of_rank Staff.embeds_later f) .partialUpdate with
    ⟨hfalse, -⟩ | ⟨-, members, hmembers, hnodup, hiff⟩
  · cases hfalse
  · have hmapping : ∃ mapping, Staff.schema.mapping.extent? (.entitySet Staff.people) =
        some mapping ∧ mapping.functions = [Staff.update] := ⟨_, rfl, rfl⟩
    obtain ⟨mapping, hmapping, hfunctions⟩ := hmapping
    have hupdate : Staff.update ∈ mapping.functions := by
      rw [hfunctions]
      exact List.mem_singleton_self _
    refine ⟨members, hmembers, hnodup, (hiff _).2 ⟨.token, ?_⟩, (hiff _).2 ⟨.mappedEnd, ?_⟩,
      (hiff _).2 ⟨.parameter, ?_⟩, (hiff _).2 ⟨.parameter, ?_⟩⟩
    · have hfields : Staff.schema.conceptual.allFields ⟨0⟩ =
        .ok [⟨⟨0⟩, 0⟩, ⟨⟨0⟩, 1⟩, ⟨⟨0⟩, 2⟩] := rfl
      have hguards : Staff.schema.conceptual.Guards ⟨⟨2⟩, 0⟩ := ⟨_, _, .refl, rfl, rfl⟩
      exact .token hfields (by decide) Staff.stamp_within hguards
    · have hreports : Staff.schema.conceptual.associationSet ⟨⟨0⟩, 0⟩ =
        .ok ⟨"Reports", ⟨0⟩, ⟨Staff.people, Staff.people⟩⟩ := rfl
      have hbound : Ends.get? ⟨Staff.people, Staff.people⟩ 0 = some Staff.people := rfl
      exact .mappedEnd hreports hbound rfl rfl rfl
    · have hnumber : ⟨"number", .path [⟨⟨0⟩, 0⟩], .current⟩ ∈ Staff.update.parameters := by decide
      exact .parameterPath hmapping hupdate rfl hnumber (.inl rfl) rfl
    · have hstaff : ⟨"staff", .farEnd ⟨⟨0⟩, 0⟩ ⟨⟨0⟩, 0⟩, .current⟩ ∈
        Staff.update.parameters := by decide
      exact .parameterEnd hmapping hupdate rfl hstaff (.inl rfl) rfl

example : Staff.schema.interestingMembers Staff.people ⟨0⟩ .partialUpdate = .ok [
    .farEnd ⟨⟨0⟩, 1⟩, .field ⟨⟨2⟩, 0⟩, .field ⟨⟨1⟩, 1⟩, .field ⟨⟨0⟩, 1⟩, .field ⟨⟨0⟩, 2⟩,
    .field ⟨⟨0⟩, 0⟩, .farEnd ⟨⟨0⟩, 0⟩] :=
  rfl

end Schema

end QueryViews
