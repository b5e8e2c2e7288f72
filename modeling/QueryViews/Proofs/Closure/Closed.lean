import QueryViews.Proofs.Closure.Reached
import QueryViews.Proofs.Schema.Resolved

/-!
# The closure of a container exists

In a verified schema, types and relationships refer only to what is declared, and so do the sets of
a container, with one exception: an entity set may have an element type that does not exist. That
exception does not matter here, since it is the subtypes of the element type that the walk starts
from, and it looks for these among the types that are declared. So every container has a closure
(`Schema.Verified.exists_closure`).
-/

namespace QueryViews

namespace Conceptual

variable {c : Conceptual} {owner : Container} {closure : List Element}

/-- What is in a closure is declared. -/
theorem exists_refersTo_of_mem_closure (h : c.closure owner = .ok closure) {e : Element}
    (he : e ∈ closure) : ∃ next, c.refersTo e = .ok next := by
  obtain ⟨roots, -, h⟩ := bind_eq_ok_iff.1 h
  obtain ⟨next, hnext, -⟩ := ((Walk.start c roots).of_visit_eq_ok h).seen_covered e he
  exact ⟨next, hnext⟩

/-- A type that the walk met is there. -/
theorem exists_model_of_mem_closure (h : c.closure owner = .ok closure) {id : ModelId}
    (hid : .model id ∈ closure) : ∃ m, c.model id = .ok m := by
  obtain ⟨next, hnext⟩ := exists_refersTo_of_mem_closure h hid
  obtain ⟨m, hm, -⟩ := bind_eq_ok_iff.1 hnext
  exact ⟨m, hm⟩

/-- An association that the walk met is there. -/
theorem exists_association_of_mem_closure (h : c.closure owner = .ok closure) {id : AssociationId}
    (hid : .association id ∈ closure) : ∃ a, c.association id = .ok a := by
  obtain ⟨next, hnext⟩ := exists_refersTo_of_mem_closure h hid
  obtain ⟨a, ha, -⟩ := bind_eq_ok_iff.1 hnext
  exact ⟨a, ha⟩

/-- A type refers to its base and to what the types of its fields name. -/
theorem refersTo_model {id : ModelId} {m : Model} (hm : c.model id = .ok m) :
    c.refersTo (.model id) =
      .ok (m.base?.toList.map .model ++ m.fields.flatMap fun f => f.type.refersTo) := by
  rw [refersTo, hm]
  rfl

/-- An association refers to the types of its two ends. -/
theorem refersTo_association {id : AssociationId} {a : Association}
    (ha : c.association id = .ok a) :
    c.refersTo (.association id) = .ok (a.ends.toList.map fun e => .model e.model) := by
  rw [refersTo, ha]
  rfl

/-- The subtypes of a type are the entity types that are below it. -/
theorem mem_subtypes_iff {id : ModelId} {subtypes : List ModelId}
    (h : c.subtypes id = .ok subtypes) {candidate : ModelId} : candidate ∈ subtypes ↔
      ∃ m, c.model candidate = .ok m ∧ m.isEntity = true ∧
        c.isAssignable candidate id = .ok true := by
  rw [(mem_of_select_eq_ok h).2 candidate]
  constructor
  · rintro ⟨-, htest⟩
    obtain ⟨m, hm, htest⟩ := bind_eq_ok_iff.1 htest
    cases hentity : m.isEntity with
    | true => exact ⟨m, hm, hentity, by simpa [hentity] using htest⟩
    | false => simp [hentity, pure, Except.pure] at htest
  · rintro ⟨m, hm, hentity, hassignable⟩
    obtain ⟨hlt, -⟩ := List.getElem?_eq_some_iff.1 (found_eq_ok_iff.1 hm)
    refine ⟨List.mem_map.2 ⟨candidate.index, List.mem_range.2 hlt, rfl⟩,
      bind_eq_ok_iff.2 ⟨m, hm, ?_⟩⟩
    rw [if_pos hentity]
    exact hassignable

/-- What a container speaks of directly: the types that its entity sets can hold, and the
relationships of its association sets. -/
theorem mem_containerElements_iff {roots : List Element}
    (h : c.containerElements owner = .ok roots) {e : Element} : e ∈ roots ↔
      (∃ set ∈ owner.entitySets, ∃ id m, c.model id = .ok m ∧ m.isEntity = true ∧
        c.isAssignable id set.model = .ok true ∧ e = .model id) ∨
      ∃ set ∈ owner.associationSets, e = .association set.association := by
  obtain ⟨types, htypes, hr⟩ := bind_eq_ok_iff.1 h
  cases hr
  rw [List.mem_append, List.mem_map, List.mem_map]
  refine or_congr ⟨?_, ?_⟩ (exists_congr fun set => and_congr_right fun _ => eq_comm)
  · rintro ⟨id, hid, rfl⟩
    obtain ⟨subtypes, hsubtypes, hid⟩ := List.mem_flatten.1 hid
    obtain ⟨set, hset, hsubtypes⟩ := exists_of_mem_mapM htypes hsubtypes
    obtain ⟨m, hm, hentity, hassignable⟩ := (mem_subtypes_iff hsubtypes).1 hid
    exact ⟨set, hset, id, m, hm, hentity, hassignable, rfl⟩
  · rintro ⟨set, hset, id, m, hm, hentity, hassignable, rfl⟩
    obtain ⟨subtypes, hflat, hsubtypes⟩ := exists_mem_of_mapM htypes hset
    exact ⟨id, List.mem_flatten.2 ⟨subtypes, hflat,
      (mem_subtypes_iff hsubtypes).2 ⟨m, hm, hentity, hassignable⟩⟩, rfl⟩

/-- The closure of a container holds exactly what is reached from what it speaks of. -/
theorem mem_closure_iff (h : c.closure owner = .ok closure) :
    ∃ roots, c.containerElements owner = .ok roots ∧ closure.Nodup ∧
      ∀ e, e ∈ closure ↔ c.Reached roots e := by
  obtain ⟨roots, hroots, h⟩ := bind_eq_ok_iff.1 h
  have w := (Walk.start c roots).of_visit_eq_ok h
  exact ⟨roots, hroots, w.nodup_seen, fun e => w.mem_seen_iff⟩

end Conceptual

namespace Schema

variable {s : Schema}

/-- In a verified schema the subtypes of every type can be listed. -/
theorem Verified.exists_subtypes (hv : s.Verified) (id : ModelId) :
    ∃ subtypes, s.conceptual.subtypes id = .ok subtypes := by
  refine exists_select_eq_ok fun candidate hcandidate => ?_
  obtain ⟨index, hindex, rfl⟩ := List.mem_map.1 hcandidate
  obtain ⟨m, hm⟩ : ∃ m, s.conceptual.model ⟨index⟩ = .ok m :=
    ⟨_, found_eq_ok_iff.2 (List.getElem?_eq_getElem (List.mem_range.1 hindex))⟩
  obtain ⟨b, hb⟩ := hv.exists_isAssignable hm id
  by_cases hentity : m.isEntity = true
  · exact ⟨b, bind_eq_ok_iff.2 ⟨m, hm, by rw [if_pos hentity, hb]⟩⟩
  · exact ⟨false, bind_eq_ok_iff.2 ⟨m, hm, by rw [if_neg hentity]; rfl⟩⟩

/-- The base type of a type is declared. -/
theorem Verified.exists_base (hv : s.Verified) {id base : ModelId} {m : Model}
    (hm : s.conceptual.model id = .ok m) (hbase : m.base? = some base) :
    ∃ b, s.conceptual.model base = .ok b := by
  obtain ⟨chain, hchain⟩ := hv.exists_ancestors hm
  cases Conceptual.chain_of_ancestors hchain with
  | root hm' hnone =>
    cases hm.symm.trans hm'
    cases hbase.symm.trans hnone
  | derived hm' hbase' rest =>
    cases hm.symm.trans hm'
    cases hbase.symm.trans hbase'
    cases rest with
    | root hm' | derived hm' => exact ⟨_, hm'⟩

/-- Types and relationships refer to what is declared. -/
theorem Verified.exists_refersTo (hv : s.Verified) {e e' : Element} {next : List Element}
    (h : s.conceptual.refersTo e = .ok next) (he' : e' ∈ next) :
    ∃ next', s.conceptual.refersTo e' = .ok next' := by
  cases e with
  | model id =>
    obtain ⟨m, hm, hr⟩ := bind_eq_ok_iff.1 h
    cases hr
    -- what a type refers to is its base, or what a field of it names
    rcases List.mem_append.1 he' with he' | he'
    · obtain ⟨base, hbase, rfl⟩ := List.mem_map.1 he'
      obtain ⟨b, hb⟩ := hv.exists_base hm (Option.mem_toList.1 hbase)
      exact ⟨_, Conceptual.refersTo_model hb⟩
    · obtain ⟨f, hf, he'⟩ := List.mem_flatMap.1 he'
      cases htype : f.type with
      | scalar type =>
        rw [htype] at he'
        cases he'
      | embedded target =>
        rw [htype] at he'
        obtain rfl := List.mem_singleton.1 he'
        obtain ⟨t, ht, -⟩ := hv.exists_embedded hm hf htype
        exact ⟨_, Conceptual.refersTo_model ht⟩
      | navigation association near far =>
        rw [htype] at he'
        obtain rfl := List.mem_singleton.1 he'
        obtain ⟨a, -, ha, -⟩ := hv.exists_navigated hm hf htype
        exact ⟨_, Conceptual.refersTo_association ha⟩
  | association id =>
    obtain ⟨a, ha, hr⟩ := bind_eq_ok_iff.1 h
    cases hr
    obtain ⟨e, he, rfl⟩ := List.mem_map.1 he'
    obtain ⟨index, hindex⟩ := List.mem_iff_getElem?.1 he
    obtain ⟨m, hm, -⟩ := hv.exists_end (mem_of_found ha) hindex
    exact ⟨_, Conceptual.refersTo_model hm⟩

/-- **Every container has a closure.** -/
theorem Verified.exists_closure (hv : s.Verified) {id : ContainerId} {owner : Container}
    (howner : s.conceptual.container id = .ok owner) :
    ∃ closure, s.conceptual.closure owner = .ok closure := by
  obtain ⟨types, htypes⟩ := exists_mapM_eq_ok fun (set : EntitySet) (_ : set ∈ owner.entitySets) =>
    hv.exists_subtypes set.model
  obtain ⟨roots, hroots⟩ : ∃ roots, s.conceptual.containerElements owner = .ok roots :=
    ⟨_, bind_eq_ok_iff.2 ⟨types, htypes, rfl⟩⟩
  -- the walk succeeds if all that it meets is there
  suffices hdeclared : ∀ e, s.conceptual.Reached roots e →
      ∃ next, s.conceptual.refersTo e = .ok next by
    obtain ⟨closure, hclosure⟩ := Conceptual.exists_visit_eq_ok_iff.2 hdeclared
    exact ⟨closure, bind_eq_ok_iff.2 ⟨_, hroots, hclosure⟩⟩
  intro e he
  induction he with
  | root he =>
    rcases (Conceptual.mem_containerElements_iff hroots).1 he with
      ⟨_, _, _, m, hm, _, _, rfl⟩ | ⟨set, hset, rfl⟩
    · exact ⟨_, Conceptual.refersTo_model hm⟩
    · obtain ⟨index, hindex⟩ := List.mem_iff_getElem?.1 hset
      have hset : s.conceptual.associationSet ⟨id, index⟩ = .ok set :=
        Conceptual.associationSet_eq_ok_iff.2 ⟨owner, howner, hindex⟩
      obtain ⟨a, ha⟩ := hv.exists_association hset
      exact ⟨_, Conceptual.refersTo_association ha⟩
  | step _ hnext he' ih => exact hv.exists_refersTo hnext he'

/-- The element type of an entity set is in the closure if it is an entity type; if it is none, only
something else in the closure brings it in. -/
theorem Verified.element_mem_closure_iff (hv : s.Verified) {owner : Container}
    {closure : List Element} (h : s.conceptual.closure owner = .ok closure) {set : EntitySet}
    (hset : set ∈ owner.entitySets) : .model set.model ∈ closure ↔
      (∃ m, s.conceptual.model set.model = .ok m ∧ m.isEntity = true) ∨
      ∃ e ∈ closure, ∃ next, s.conceptual.refersTo e = .ok next ∧ .model set.model ∈ next := by
  obtain ⟨roots, hroots, -, hmem⟩ := Conceptual.mem_closure_iff h
  constructor
  · intro helement
    generalize hmodel : Element.model set.model = e at helement
    -- it is a root, or something in the closure refers to it
    cases (hmem e).1 helement with
    | root hroot =>
      subst hmodel
      rcases (Conceptual.mem_containerElements_iff hroots).1 hroot with
        ⟨_, _, _, m, hm, hentity, _, heq⟩ | ⟨_, _, hno⟩
      · cases heq
        exact .inl ⟨m, hm, hentity⟩
      · cases hno
    | step hreached hnext he' => exact .inr ⟨_, (hmem _).2 hreached, _, hnext, he'⟩
  · rintro (⟨m, hm, hentity⟩ | ⟨e, he, next, hnext, hnamed⟩)
    · obtain ⟨chain, hchain⟩ := hv.exists_ancestors hm
      exact (hmem _).2 (.root ((Conceptual.mem_containerElements_iff hroots).2 (.inl
        ⟨set, hset, _, m, hm, hentity, Conceptual.isAssignable_self hchain, rfl⟩)))
    · exact Conceptual.mem_closure_of_refersTo h he hnext hnamed

end Schema

end QueryViews
