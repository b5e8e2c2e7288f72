import QueryViews.Expr.Occurrences
import QueryViews.Proofs.Closure.Closed
import QueryViews.Proofs.Schema.Roots
import QueryViews.Proofs.View.Text

/-!
# References and the keys they carry

The view of a foreign key refers to the entities at its two ends, and no other reference occurs in
it (`Encoded.ref_mem_occurrences_iff`). What a reference carries are fields for the key of the type
at the end, so it carries something exactly if that type has a key: if the root above it is an
entity type.

Verification does not ask that base types are entity types, nor that entity sets hold any. What a
schema has where they are, and where they are not, is `Schema.Built.entityRoots_spec`.
-/

namespace QueryViews

namespace Expr

variable {bound : EntitySetId} {key : List Expr}

/-- What is in a list of expressions is in one of them. -/
theorem mem_occurrencesAll_iff {es : List Expr} {e : Expr} :
    e ∈ occurrencesAll es ↔ ∃ x ∈ es, e ∈ x.occurrences := by
  induction es with
  | nil => simp [occurrencesAll]
  | cons x es ih => simp [occurrencesAll, ih]

/-- Conditions in which no reference occurs are put together to one in which none occurs. -/
theorem ref_notMem_joined {es : List Expr} (h : ∀ e ∈ es, .ref bound key ∉ e.occurrences) :
    .ref bound key ∉ (joined es).occurrences := by
  match es with
  | [] => simp [joined, truth, occurrences]
  | [e] => exact h e (List.mem_singleton_self e)
  | e :: e' :: rest =>
    simpa [joined, occurrences, mem_occurrencesAll_iff] using h

/-- A reference that is made of fields has no other reference in it. -/
theorem ref_mem_ref_iff {set : EntitySetId} {fields : List FieldId} :
    .ref bound key ∈ (Expr.ref set (fields.map .field)).occurrences ↔
      Expr.ref bound key = .ref set (fields.map .field) := by
  simp [occurrences, mem_occurrencesAll_iff]

end Expr

namespace Encoded

variable {r : Encoded} {restricted : Bool} {bound : EntitySetId} {key : List Expr}

/-- There are no references in the tests. -/
theorem ref_notMem_tests :
    ∀ test ∈ r.typeTest restricted ++ r.nullTests, .ref bound key ∉ test.occurrences := by
  intro test h
  obtain rfl | ⟨f, rfl⟩ := eq_of_mem_tests h <;> simp [Expr.occurrences]

/-- The references in the query are those at its two ends. -/
theorem ref_mem_occurrences_iff : .ref bound key ∈ (r.query restricted).occurrences ↔
    ∃ index < 2, r.endRef index = .ref bound key := by
  have hfilter : .ref bound key ∉ (r.query restricted).filter.occurrences := by
    rw [query, Query.filter_addFilters simple_tests]
    exact Expr.ref_notMem_joined ref_notMem_tests
  have hend (index : Nat) : .ref bound key ∈ (r.endRef index).occurrences ↔
      r.endRef index = .ref bound key := by
    rw [endRef]
    split <;> rw [Expr.ref_mem_ref_iff, eq_comm]
  rw [Query.occurrences, List.mem_append, or_iff_right hfilter, query, Query.returning_addFilters]
  simp [Query.scan, Expr.occurrences, Expr.mem_occurrencesAll_iff, hend]

/-- Both references carry something exactly if both keys have a field. -/
theorem forall_ref_iff (hprincipal : r.fk.principal < 2) (hdependent : r.fk.dependent < 2)
    (hapart : r.fk.principal ≠ r.fk.dependent) :
    (∀ bound key, .ref bound key ∈ (r.query restricted).occurrences → key ≠ []) ↔
      r.sources ≠ [] ∧ r.ownKey ≠ [] := by
  simp only [ref_mem_occurrences_iff]
  constructor
  · intro h
    constructor
    · have := h r.principalSet _ ⟨_, hprincipal, by rw [endRef, if_neg hapart]⟩
      simpa using this
    · have := h r.dependentSet _ ⟨_, hdependent, by rw [endRef, if_pos rfl]⟩
      simpa using this
  · rintro ⟨hsources, hown⟩ bound key ⟨index, -, hend⟩
    rw [endRef] at hend
    split at hend <;> cases hend
    · simpa using hown
    · simpa using hsources

end Encoded

namespace Schema

variable {s : Schema} {set : AssociationSet} {a : Association} {r : Encoded}

/-- Each end's key has a field exactly if its type has a root that is an entity type. -/
theorem Encodes.keys_iff (hs : s.Built) (hr : s.Encodes set a r)
    (ha : s.conceptual.association set.association = .ok a) :
    r.sources ≠ [] ∧ r.ownKey ≠ [] ↔ s.conceptual.HasEntityRoot r.principal.model ∧
      s.conceptual.HasEntityRoot r.dependent.model := by
  have hend {index : Nat} {e : AssociationEnd} {key : List FieldId}
      (he : a.ends.get? index = some e) (hkey : s.conceptual.keyFields e.model = .ok key) :
      key ≠ [] ↔ s.conceptual.HasEntityRoot e.model := by
    obtain ⟨m, hm, -⟩ :=
      hs.verified.exists_end (mem_of_found ha) he
    obtain ⟨key', hkey', hiff⟩ := hs.verified.keyFields_ne_nil_iff hm
    cases hkey.symm.trans hkey'
    exact hiff
  -- the principal's key has a source for each of its fields
  have hsources : r.sources ≠ [] ↔ r.principalKey ≠ [] := by
    have hlength := (forall₂_sourceFields (hr.linesUp hs ha).targets.symm.subset).length_eq
    rw [← List.length_pos_iff, ← List.length_pos_iff, Encoded.sources, hlength]
  rw [hsources, hend hr.principal hr.principalKey, hend hr.dependent hr.ownKey]

/-- The references in the view of a foreign key all carry something exactly if the types at both
ends have roots that are entity types. -/
theorem Built.forall_ref_iff (hs : s.Built) {id : AssociationSetId} {view : View}
    (h : s.foreignKeyView id = .ok (some view)) : ∃ set a r q,
      s.relationshipOf id = .ok (set, a) ∧ s.Encodes set a r ∧ view.body = .query q ∧
      ((∀ bound key, .ref bound key ∈ q.occurrences → key ≠ []) ↔
        s.conceptual.HasEntityRoot r.principal.model ∧
          s.conceptual.HasEntityRoot r.dependent.model) := by
  obtain ⟨set, a, fk, q, hset, hfk, hq, hbody, -⟩ := exists_query_of_foreignKeyView h
  obtain ⟨r, -, restricted, hr, -, -, rfl⟩ := exists_encoded hq hfk
  have ha := (relationshipOf_eq_ok_iff.1 hset).2
  refine ⟨set, a, r, _, hset, hr, hbody, Iff.trans ?_ (hr.keys_iff hs ha)⟩
  exact Encoded.forall_ref_iff (lt_two_of_get?_eq_some hr.principal)
    (lt_two_of_get?_eq_some hr.dependent) (hr.linesUp hs ha).apart

end Schema

/-- **What an entity type at the root brings, and what is missing without one.** Verification asks
root entity types for a key, and does not ask that the root of an entity type is one. So the base
types are entity types exactly if all entity types have entity types at their roots; a type has a
key exactly if it has such a root; the references in the view of a foreign key all carry something
exactly if the types at both ends have; and the element type of an entity set is in the closure of
its container on its own account exactly if it is an entity type. -/
theorem Schema.Built.entityRoots_spec {s : Schema} (hs : s.Built) :
    (s.conceptual.EntityBases ↔ ∀ id m, s.conceptual.model id = .ok m → m.isEntity = true →
      s.conceptual.HasEntityRoot id) ∧
    (∀ id m, s.conceptual.model id = .ok m → ∃ key, s.conceptual.keyFields id = .ok key ∧
      (key ≠ [] ↔ s.conceptual.HasEntityRoot id)) ∧
    (∀ id view, s.foreignKeyView id = .ok (some view) → ∃ set a r q,
      s.relationshipOf id = .ok (set, a) ∧ s.Encodes set a r ∧ view.body = .query q ∧
      ((∀ bound key, .ref bound key ∈ q.occurrences → key ≠ []) ↔
        s.conceptual.HasEntityRoot r.principal.model ∧
          s.conceptual.HasEntityRoot r.dependent.model)) ∧
    (∀ id owner, s.conceptual.container id = .ok owner → ∃ closure,
      s.conceptual.closure owner = .ok closure ∧ ∀ set ∈ owner.entitySets,
        (.model set.model ∈ closure ↔
          (∃ m, s.conceptual.model set.model = .ok m ∧ m.isEntity = true) ∨
          ∃ e ∈ closure, ∃ next, s.conceptual.refersTo e = .ok next ∧
            .model set.model ∈ next)) := by
  have hv := hs.verified
  refine ⟨hv.entityBases_iff, fun id m hm => hv.keyFields_ne_nil_iff hm,
    fun id view h => hs.forall_ref_iff h, fun id owner howner => ?_⟩
  obtain ⟨closure, hclosure⟩ := hv.exists_closure howner
  exact ⟨closure, hclosure, fun set hset => hv.element_mem_closure_iff hclosure hset⟩

/-- Orders and things are root entity types, so that both references to an item and its order carry
a key. -/
theorem Warehouse.itemOrders_keyed : ∃ q, schema.foreignKeyView ⟨⟨0⟩, 0⟩ = .ok (some view) ∧
    view.body = .query q ∧ ∀ bound key, .ref bound key ∈ q.occurrences → key ≠ [] := by
  obtain ⟨-, -, hviews, -⟩ := built.entityRoots_spec
  obtain ⟨set, a, r, q, hset, hr, hbody, hiff⟩ := hviews _ _ view_eq
  have hset' : schema.relationshipOf ⟨⟨0⟩, 0⟩ = .ok (itemOrders, itemOrder) := rfl
  cases hset'.symm.trans hset
  cases encodes.unique hr
  exact ⟨q, view_eq, hbody, hiff.2 ⟨⟨⟨0⟩, _, rfl, rfl, rfl⟩, ⟨⟨1⟩, _, rfl, rfl, rfl⟩⟩⟩

/-! ## An archive -/

namespace Archive

/-- Customers derive from an embedded type. There is a set of customers, one of labels, which are
embedded too, and a relationship between customers that a foreign key without fields encodes. -/
def declarations : List Declaration := [
  .embedded "Address", .derivedEntity "Customer" ⟨0⟩, .embedded "Label",
  .association "Referral" (⟨1⟩, .many) (⟨1⟩, .zeroOrOne), .foreignKey ⟨0⟩ 1 [],
  .container "Archive", .entitySet ⟨0⟩ "Customers" ⟨1⟩, .entitySet ⟨0⟩ "Labels" ⟨2⟩,
  .associationSet ⟨0⟩ "Referrals" ⟨0⟩ ⟨⟨⟨0⟩, 0⟩, ⟨⟨0⟩, 0⟩⟩]

/-- The ids that are issued on the way. -/
def issued : List Issued := [
  .model ⟨0⟩, .model ⟨1⟩, .model ⟨2⟩, .association ⟨0⟩, .nothing, .container ⟨0⟩,
  .entitySet ⟨⟨0⟩, 0⟩, .entitySet ⟨⟨0⟩, 1⟩, .associationSet ⟨⟨0⟩, 0⟩]

/-- An embedded type. -/
def address : Model := ⟨"Address", [], .embedded⟩

/-- A type derived from the embedded one, without a key. -/
def customer : Model := ⟨"Customer", [], .entity ⟨some ⟨0⟩, false, []⟩⟩

/-- The container of the sets. -/
def owner : Container :=
  ⟨"Archive", [⟨"Customers", ⟨1⟩⟩, ⟨"Labels", ⟨2⟩⟩], [⟨"Referrals", ⟨0⟩, ⟨⟨0⟩, 0⟩, ⟨⟨0⟩, 0⟩⟩]⟩

/-- The schema that they make. -/
def schema : Schema where
  conceptual := {
    models := [address, customer, ⟨"Label", [], .embedded⟩]
    associations := [⟨"Referral", ⟨⟨"Customer", ⟨1⟩, .many⟩, ⟨"Customer1", ⟨1⟩, .zeroOrOne⟩⟩,
      [⟨1, 0, []⟩], true, false⟩]
    containers := [owner] }
  store := ⟨[], []⟩
  mapping := ⟨[]⟩

/-- The view refers to customers by keys without fields. -/
def view : View where
  key := .extent (.associationSet ⟨⟨0⟩, 0⟩)
  body := .query ⟨.entitySet ⟨⟨0⟩, 0⟩, .truth,
    .relationship ⟨0⟩ [.ref ⟨⟨0⟩, 0⟩ [], .ref ⟨⟨0⟩, 0⟩ []]⟩
  text := "SELECT VALUE Referral(CreateRef(Archive.Customers, ROW()), " ++
    "CreateRef(Archive.Customers, ROW())) FROM Archive.Customers AS T"
  origin := .foreignKey

/-- The walk from the container meets the relationship, the embedded type and the customers. -/
theorem closure_eq : schema.conceptual.closure owner =
    .ok [.association ⟨0⟩, .model ⟨0⟩, .model ⟨1⟩] := by
  cbv

end Archive

/-- The schema is built, though the base type of customers is no entity type. Customers have no key,
a referral refers to two of them by nothing, and the element type of the labels is not in the
closure. -/
theorem Archive.customer_keyless : schema.Built ∧
    schema.conceptual.model ⟨1⟩ = .ok customer ∧ customer.isEntity = true ∧
    customer.base? = some ⟨0⟩ ∧ schema.conceptual.model ⟨0⟩ = .ok address ∧
    address.isEntity = false ∧ schema.conceptual.root ⟨1⟩ = .ok ⟨0⟩ ∧
    schema.conceptual.keyFields ⟨1⟩ = .ok [] ∧
    schema.foreignKeyView ⟨⟨0⟩, 0⟩ = .ok (some view) ∧
    (∃ q, view.body = .query q ∧ .ref ⟨⟨0⟩, 0⟩ [] ∈ q.occurrences) ∧
    schema.conceptual.container ⟨0⟩ = .ok owner ∧
    ∃ closure, schema.conceptual.closure owner = .ok closure ∧
      ∃ set ∈ owner.entitySets, .model set.model ∉ closure := by
  refine ⟨⟨declarations, issued, rfl⟩, rfl, rfl, rfl, rfl, rfl, rfl, rfl, rfl, ⟨_, rfl, ?_⟩, rfl,
    _, closure_eq, ⟨"Labels", ⟨2⟩⟩, ?_, ?_⟩
  · simp [Query.occurrences, Expr.occurrences, Expr.occurrencesAll]
  · decide
  · decide

end QueryViews
