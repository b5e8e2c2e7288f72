import QueryViews.Proofs.Closure.Closed
import Mathlib.Data.Set.Image
import Mathlib.Order.Bounds.Defs

/-!
# The closure is the least closed set

The types and relationships of a container are **closed** (`Conceptual.ClosedOver`) when they take
in what the sets of the container are of, and with each type its base type, the types embedded in
it and the relationships it navigates, and with each relationship the types at its ends. There may
be many such collections. The closure of a container is the least of them
(`Schema.Built.closure_isLeast`), and every container has one, however the references of a schema
run in circles.

That the closure is closed is the invariant of the walk; that it is the least is an induction over
the way in which an element is reached.
-/

namespace QueryViews

/-- The types of a list of elements. -/
def modelsOf (l : List Element) : Set ModelId := {id | .model id ∈ l}

/-- The relationships of a list of elements. -/
def associationsOf (l : List Element) : Set AssociationId := {id | .association id ∈ l}

namespace Conceptual

/-- Types and relationships that take in what a container speaks of, and all that they refer to. -/
structure ClosedOver (c : Conceptual) (owner : Container) (models : Set ModelId)
    (associations : Set AssociationId) : Prop where
  /-- the entity types that an entity set can hold -/
  held : ∀ set ∈ owner.entitySets, ∀ id m, c.model id = .ok m → m.isEntity = true →
    c.isAssignable id set.model = .ok true → id ∈ models
  related : ∀ set ∈ owner.associationSets, set.association ∈ associations
  base : ∀ id ∈ models, ∀ m, c.model id = .ok m → ∀ base, m.base? = some base → base ∈ models
  embedded : ∀ id ∈ models, ∀ m, c.model id = .ok m → ∀ f ∈ m.fields, ∀ target,
    f.type = .embedded target → target ∈ models
  navigated : ∀ id ∈ models, ∀ m, c.model id = .ok m → ∀ f ∈ m.fields, ∀ a near far,
    f.type = .navigation a near far → a ∈ associations
  ends : ∀ id ∈ associations, ∀ a, c.association id = .ok a → ∀ e ∈ a.ends.toList,
    e.model ∈ models

variable {c : Conceptual} {owner : Container} {closure : List Element} {models : Set ModelId}
  {associations : Set AssociationId}

/-- What the walk meets is closed: it follows every reference from what it met. -/
theorem closedOver_closure (h : c.closure owner = .ok closure) :
    c.ClosedOver owner (modelsOf closure) (associationsOf closure) := by
  obtain ⟨roots, hroots, -, hmem⟩ := mem_closure_iff h
  refine ⟨fun set hset id m hm hentity hassignable => ?_,
    fun set hset => association_mem_closure h hset, fun id hid m hm base hbase => ?_,
    fun id hid m hm f hf target htype => ?_, fun id hid m hm f hf a near far htype => ?_,
    fun id hid a ha e he => ?_⟩
  · exact (hmem _).2 (.root ((mem_containerElements_iff hroots).2
      (.inl ⟨set, hset, id, m, hm, hentity, hassignable, rfl⟩)))
  · refine mem_closure_of_refersTo h hid (refersTo_model hm) (List.mem_append_left _ ?_)
    exact List.mem_map_of_mem (Option.mem_toList.2 hbase)
  · refine mem_closure_of_refersTo h hid (refersTo_model hm) (List.mem_append_right _ ?_)
    exact List.mem_flatMap.2 ⟨f, hf, by simp [htype, FieldType.refersTo]⟩
  · refine mem_closure_of_refersTo h hid (refersTo_model hm) (List.mem_append_right _ ?_)
    exact List.mem_flatMap.2 ⟨f, hf, by simp [htype, FieldType.refersTo]⟩
  · exact mem_closure_of_refersTo h hid (refersTo_association ha) (List.mem_map_of_mem he)

/-- What an element of a closed collection refers to is in the collection too. -/
theorem ClosedOver.mem_of_refersTo (hc : c.ClosedOver owner models associations)
    {e e' : Element} {next : List Element} (hnext : c.refersTo e = .ok next) (he' : e' ∈ next)
    (he : e ∈ .model '' models ∪ .association '' associations) :
    e' ∈ .model '' models ∪ .association '' associations := by
  rcases he with ⟨id, hid, rfl⟩ | ⟨id, hid, rfl⟩
  · obtain ⟨m, hm, hr⟩ := bind_eq_ok_iff.1 hnext
    cases hr
    rcases List.mem_append.1 he' with he' | he'
    · obtain ⟨base, hbase, rfl⟩ := List.mem_map.1 he'
      exact .inl ⟨base, hc.base id hid m hm base (Option.mem_toList.1 hbase), rfl⟩
    · obtain ⟨f, hf, he'⟩ := List.mem_flatMap.1 he'
      -- of the fields, only embedded ones and navigations refer to anything
      cases htype : f.type with
      | scalar type =>
        rw [htype] at he'
        cases he'
      | embedded target =>
        rw [htype] at he'
        obtain rfl := List.mem_singleton.1 he'
        exact .inl ⟨target, hc.embedded id hid m hm f hf target htype, rfl⟩
      | navigation a near far =>
        rw [htype] at he'
        obtain rfl := List.mem_singleton.1 he'
        exact .inr ⟨a, hc.navigated id hid m hm f hf a near far htype, rfl⟩
  · obtain ⟨a, ha, hr⟩ := bind_eq_ok_iff.1 hnext
    cases hr
    obtain ⟨e, he, rfl⟩ := List.mem_map.1 he'
    exact .inl ⟨e.model, hc.ends id hid a ha e he, rfl⟩

/-- A closed collection holds whatever is reached. -/
theorem ClosedOver.mem_of_reached (hc : c.ClosedOver owner models associations)
    {roots : List Element} (hroots : c.containerElements owner = .ok roots) {e : Element}
    (he : c.Reached roots e) : e ∈ .model '' models ∪ .association '' associations := by
  induction he with
  | root he =>
    rcases (mem_containerElements_iff hroots).1 he with
      ⟨set, hset, id, m, hm, hentity, hassignable, rfl⟩ | ⟨set, hset, rfl⟩
    · exact .inl ⟨id, hc.held set hset id m hm hentity hassignable, rfl⟩
    · exact .inr ⟨_, hc.related set hset, rfl⟩
  | step _ hnext he' ih => exact hc.mem_of_refersTo hnext he' ih

/-- Whatever is closed has all that the walk meets, since the walk only follows references. -/
theorem ClosedOver.closure_le (hc : c.ClosedOver owner models associations)
    (h : c.closure owner = .ok closure) :
    modelsOf closure ⊆ models ∧ associationsOf closure ⊆ associations := by
  obtain ⟨roots, hroots, -, hmem⟩ := mem_closure_iff h
  constructor
  · intro id hid
    simpa using hc.mem_of_reached hroots ((hmem _).1 hid)
  · intro id hid
    simpa using hc.mem_of_reached hroots ((hmem _).1 hid)

end Conceptual

/-- **The closure is the least closed set.** The walk through the types and relationships of any
container of a built schema ends without a fault, and the types and relationships that it saw, each
of them once, are the least that take in what the sets of the container are of and all that they
refer to. -/
theorem Schema.Built.closure_isLeast {s : Schema} (hs : s.Built) {id : ContainerId}
    {owner : Container} (howner : s.conceptual.container id = .ok owner) :
    ∃ closure, s.conceptual.closure owner = .ok closure ∧ closure.Nodup ∧
      IsLeast {collection : Set ModelId × Set AssociationId |
        s.conceptual.ClosedOver owner collection.1 collection.2}
        (modelsOf closure, associationsOf closure) := by
  obtain ⟨closure, h⟩ := hs.verified.exists_closure howner
  obtain ⟨-, -, hnodup, -⟩ := Conceptual.mem_closure_iff h
  exact ⟨closure, h, hnodup, Conceptual.closedOver_closure h, fun _ hc => hc.closure_le h⟩

/-! ## An office -/

namespace Office

/-- People report to managers, who are people, and notes hold replies, which are notes. Only the
managers have a set. Visitors have nothing to do with any of them. -/
def declarations : List Declaration := [
  .entity "Visitor", .field .key ⟨0⟩ "Id" .int32,
  .entity "Person", .field .key ⟨1⟩ "Id" .int32, .derivedEntity "Manager" ⟨1⟩,
  .embedded "Note", .embeddedField ⟨1⟩ "Latest" ⟨3⟩, .embeddedField ⟨3⟩ "Reply" ⟨3⟩,
  .association "Report" (⟨1⟩, .many) (⟨2⟩, .zeroOrOne),
  .navigation ⟨1⟩ "Manager" ⟨0⟩ 0, .navigation ⟨2⟩ "Reports" ⟨0⟩ 1,
  .container "Office", .entitySet ⟨0⟩ "Managers" ⟨2⟩,
  .storeContainer "Db", .mapContainers ⟨0⟩ ⟨0⟩]

/-- An office that lists managers only. -/
def owner : Container := ⟨"Office", [⟨"Managers", ⟨2⟩⟩], []⟩

/-- Persons with notes about notes, and managers among them to whom persons report; visitors are not
referred to by anything. -/
def schema : Schema where
  conceptual := {
    models := [
      ⟨"Visitor", [⟨"Id", .scalar .int32, false, false⟩], .entity ⟨none, false, [⟨⟨0⟩, 0⟩]⟩⟩,
      ⟨"Person", [⟨"Id", .scalar .int32, false, false⟩, ⟨"Latest", .embedded ⟨3⟩, false, false⟩,
        ⟨"Manager", .navigation ⟨0⟩ 0 1, false, false⟩], .entity ⟨none, false, [⟨⟨1⟩, 0⟩]⟩⟩,
      ⟨"Manager", [⟨"Reports", .navigation ⟨0⟩ 1 0, false, false⟩],
        .entity ⟨some ⟨1⟩, false, []⟩⟩,
      ⟨"Note", [⟨"Reply", .embedded ⟨3⟩, false, false⟩], .embedded⟩]
    associations := [⟨"Report", ⟨⟨"Person", ⟨1⟩, .many⟩, ⟨"Manager", ⟨2⟩, .zeroOrOne⟩⟩, [], false,
      false⟩]
    containers := [owner] }
  store := ⟨[⟨"Db", []⟩], []⟩
  mapping := ⟨[⟨⟨0⟩, ⟨0⟩, []⟩]⟩

theorem built : schema.Built := ⟨declarations, _, rfl⟩

/-- What the walk from the managers sees, last first. -/
def closure : List Element := [.association ⟨0⟩, .model ⟨3⟩, .model ⟨1⟩, .model ⟨2⟩]

theorem closure_eq : schema.conceptual.closure owner = .ok closure := by
  cbv

end Office

/-- From the managers of the office the walk sees people, managers, notes and reports, in spite of
the circles among them, and leaves out the visitors. -/
theorem Office.closure_least : schema.Built ∧ schema.conceptual.container ⟨0⟩ = .ok owner ∧
    schema.conceptual.closure owner = .ok closure ∧
    IsLeast {collection : Set ModelId × Set AssociationId |
      schema.conceptual.ClosedOver owner collection.1 collection.2}
      (modelsOf closure, associationsOf closure) := by
  have howner : schema.conceptual.container ⟨0⟩ = .ok owner := rfl
  obtain ⟨closure', h, -, hleast⟩ := built.closure_isLeast howner
  cases closure_eq.symm.trans h
  exact ⟨built, howner, closure_eq, hleast⟩

end QueryViews
