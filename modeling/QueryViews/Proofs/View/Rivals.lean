import QueryViews.Proofs.View.Links

/-!
# One view for the instances of a relationship

The rows of the dependent entity set say which instances a relationship with a foreign key has, so
two association sets that bind the same entity set there make the same instances. They are
**rivals** (`Schema.Rivals`), and that is an error for either of them, not only for the one that
comes second (`Schema.Built.foreignKeyView_exclusive`).

A set looks for rivals among the sets of its own container only. That is enough, because an
association set of a built schema binds entity sets of its own container.
-/

namespace QueryViews

/-- The view makes instances of a relationship of the rows of an entity set. -/
def View.Describes (view : View) (association : AssociationId) (rows : EntitySetId) : Prop :=
  ∃ q ends, view.body = .query q ∧ q.source = .entitySet rows ∧
    q.returning = .relationship association ends

/-- The fields that a foreign key reads are there. -/
def ForeignKey.SourcesResolve (fk : ForeignKey) (s : Schema) : Prop :=
  ∀ pair ∈ fk.fields, (Link.field pair.source).Resolves s

namespace Schema

/-- The relationship of an association set has a foreign key, whose values are in the rows of the
entity set that the association set binds to the dependent end. -/
def DrawsFrom (s : Schema) (id : AssociationSetId) (association : AssociationId)
    (rows : EntitySetId) : Prop :=
  ∃ set a fk, s.relationshipOf id = .ok (set, a) ∧ set.association = association ∧
    a.foreignKey? = some fk ∧ set.ends.get? fk.dependent = some rows

/-- The operation failed with an error in the mapping. -/
def MappingFails {α : Type} (outcome : Except (Failure Error) α) : Prop :=
  ∃ e, outcome = .error (.error e) ∧ e.isMapping = true

/-- Two association sets that make the same instances of the same rows. -/
def Rivals (s : Schema) (id other : AssociationSetId) : Prop :=
  id ≠ other ∧ ∃ association rows, s.DrawsFrom id association rows ∧
    s.DrawsFrom other association rows

variable {s : Schema} {id other : AssociationSetId} {set : AssociationSet} {a : Association}
  {association : AssociationId} {rows : EntitySetId} {r : Encoded}

/-- What is encoded is drawn from the set that is bound to the dependent end. -/
theorem Encodes.drawsFrom (hr : s.Encodes set a r) (hset : s.relationshipOf id = .ok (set, a)) :
    s.DrawsFrom id set.association r.dependentSet :=
  ⟨set, a, r.fk, hset, rfl, hr.fk, hr.dependentSet⟩

/-- An association set draws from the rows of one set. -/
theorem DrawsFrom.unique {association' : AssociationId} {rows' : EntitySetId}
    (h : s.DrawsFrom id association rows) (h' : s.DrawsFrom id association' rows') :
    association = association' ∧ rows = rows' := by
  obtain ⟨set, a, fk, hset, rfl, hfk, hrows⟩ := h
  obtain ⟨set', a', fk', hset', rfl, hfk', hrows'⟩ := h'
  cases hset.symm.trans hset'
  cases hfk.symm.trans hfk'
  exact ⟨rfl, Option.some.inj (hrows.symm.trans hrows')⟩

/-- What an association set draws from is what it encodes. -/
theorem DrawsFrom.exists_encodes (hs : s.Built) (h : s.DrawsFrom id association rows) :
    ∃ set a r, s.relationshipOf id = .ok (set, a) ∧ s.Encodes set a r ∧
      set.association = association ∧ r.dependentSet = rows := by
  obtain ⟨set, a, fk, hset, hassociation, hfk, hrows⟩ := h
  obtain ⟨hset', ha⟩ := relationshipOf_eq_ok_iff.1 hset
  obtain ⟨r, rfl, hr⟩ := Schema.exists_encodes hs hset' ha hfk
  exact ⟨set, a, r, hset, hr, hassociation, Option.some.inj (hr.dependentSet.symm.trans hrows)⟩

/-- An association set draws from an entity set of its own container. -/
theorem DrawsFrom.container_eq (hs : s.Built) (h : s.DrawsFrom id association rows) :
    rows.container = id.container := by
  obtain ⟨set, a, r, hset, hr, -, rfl⟩ := h.exists_encodes hs
  obtain ⟨hset', ha⟩ := relationshipOf_eq_ok_iff.1 hset
  exact (hs.verified.bound_end hset' ha hr.dependentSet hr.dependent).1

/-- What the search finds is a rival. -/
theorem Encodes.exists_of_rival (hr : s.Encodes set a r)
    (hset : s.relationshipOf id = .ok (set, a)) {found : AssociationSet}
    (h : s.rival? id set r.fk = .ok (some found)) : ∃ other, s.Rivals id other ∧
      s.conceptual.associationSet other = .ok found := by
  obtain ⟨-, ha⟩ := relationshipOf_eq_ok_iff.1 hset
  obtain ⟨sets, hsets, hfind⟩ := bind_eq_ok_iff.1 h
  obtain ⟨owner, howner, hr'⟩ := bind_eq_ok_iff.1 hsets
  cases hr'
  obtain ⟨⟨other, found'⟩, hfound, heq⟩ := Option.map_eq_some_iff.1 (Except.ok.inj hfind)
  obtain rfl : found' = found := heq
  obtain ⟨⟨set', index⟩, hindex, heq⟩ := List.mem_map.1 (List.mem_of_find?_eq_some hfound)
  cases heq
  have htest := List.find?_some hfound
  simp only [Bool.and_eq_true, decide_eq_true_eq] at htest
  obtain ⟨⟨hne, hassociation⟩, hends⟩ := htest
  have hget : s.conceptual.associationSet ⟨id.container, index⟩ = .ok found' :=
    Conceptual.associationSet_eq_ok_iff.2 ⟨owner, howner, List.mk_mem_zipIdx_iff_getElem?.1 hindex⟩
  refine ⟨_, ⟨hne.symm, set.association, r.dependentSet, hr.drawsFrom hset, found', a, r.fk, ?_,
    hassociation, hr.fk, hends.trans hr.dependentSet⟩, hget⟩
  exact relationshipOf_eq_ok_iff.2 ⟨hget, hassociation ▸ ha⟩

/-- The search of the own container finds a rival exactly if there is one anywhere. -/
theorem Encodes.exists_rival (hs : s.Built) (hr : s.Encodes set a r)
    (hset : s.relationshipOf id = .ok (set, a)) :
    ∃ rival, s.rival? id set r.fk = .ok rival ∧
      (rival.isSome ↔ ∃ other, s.Rivals id other) := by
  obtain ⟨hset', ha⟩ := relationshipOf_eq_ok_iff.1 hset
  obtain ⟨owner, howner, -⟩ := Conceptual.associationSet_eq_ok_iff.1 hset'
  obtain ⟨rival, hrival, hiff⟩ := @Schema.exists_rival s set id r.fk owner howner
  refine ⟨rival, hrival, fun h => ?_, ?_⟩
  · obtain ⟨found, rfl⟩ := Option.isSome_iff_exists.1 h
    obtain ⟨other, hother, -⟩ := hr.exists_of_rival hset hrival
    exact ⟨other, hother⟩
  · rintro ⟨other, hne, association, rows, h, hother⟩
    obtain ⟨rfl, rfl⟩ := h.unique (hr.drawsFrom hset)
    -- both bind `r.dependentSet`, which is of one container
    have hcontainer : other.container = id.container :=
      (hother.container_eq hs).symm.trans (h.container_eq hs)
    obtain ⟨found, a', fk, hfound, hassociation, hfk, hrows⟩ := hother
    obtain ⟨hget, ha'⟩ := relationshipOf_eq_ok_iff.1 hfound
    rw [hassociation] at ha'
    cases ha.symm.trans ha'
    cases hr.fk.symm.trans hfk
    obtain ⟨owner', howner', hindex⟩ := Conceptual.associationSet_eq_ok_iff.1 hget
    rw [hcontainer] at howner'
    cases howner.symm.trans howner'
    refine hiff.2 ⟨other.index, found, hindex, fun hsame => hne ?_, hassociation,
      hrows.trans hr.dependentSet.symm⟩
    exact (congrArg₂ AssociationSetId.mk hcontainer hsame).symm

/-! ## One association set -/

/-- An association set of an abstract relationship is left to the generator. -/
theorem foreignKeyView_abstract {fk : ForeignKey}
    (hset : s.relationshipOf id = .ok (set, a)) (hfk : a.foreignKey? = some fk)
    (habstract : a.isAbstract = true) : ∃ name, s.extentName (.associationSet id) = .ok name ∧
      s.foreignKeyView id = .error (.error (.viewNotGenerated name)) := by
  obtain ⟨hset', -⟩ := relationshipOf_eq_ok_iff.1 hset
  obtain ⟨owner, howner, -⟩ := Conceptual.associationSet_eq_ok_iff.1 hset'
  have hname : s.extentName (.associationSet id) = .ok s!"{owner.name}.{set.name}" :=
    bind_eq_ok_iff.2 ⟨owner, howner, bind_eq_ok_iff.2 ⟨set, hset', rfl⟩⟩
  exact ⟨_, hname, foreignKeyView_of_isAbstract hset hfk habstract hname⟩

/-- An association set with a rival has no view, and the error names it and a rival. -/
theorem Rivals.foreignKeyView_eq (hs : s.Built) (h : s.Rivals id other)
    (hset : s.relationshipOf id = .ok (set, a)) (habstract : a.isAbstract = false) :
    ∃ named found dependentSet, s.Rivals id named ∧ s.conceptual.associationSet named = .ok found ∧
      s.foreignKeyView id = .error (.error (rivalry set found a dependentSet)) := by
  have ⟨_, association, rows, hdraws, _⟩ := h
  obtain ⟨set', a', r, hset', hr, -⟩ := hdraws.exists_encodes hs
  cases hset.symm.trans hset'
  obtain ⟨rival, hrival, hiff⟩ := hr.exists_rival hs hset
  obtain ⟨found, rfl⟩ := Option.isSome_iff_exists.1 (hiff.2 ⟨other, h⟩)
  obtain ⟨named, hnamed, hfound⟩ := hr.exists_of_rival hset hrival
  obtain ⟨dependentSet, hdependentSet⟩ :=
    hs.verified.exists_entitySet (relationshipOf_eq_ok_iff.1 hset).1 hr.dependentSet
  exact ⟨named, found, dependentSet, hnamed, hfound,
    foreignKeyView_of_rival hset hr.fk habstract hrival hr.dependentSet hdependentSet⟩

/-- With a rival there is no view, but an error in the mapping. -/
theorem Rivals.mappingFails (hs : s.Built) (h : s.Rivals id other)
    (hset : s.relationshipOf id = .ok (set, a)) (habstract : a.isAbstract = false) :
    MappingFails (s.foreignKeyView id) := by
  obtain ⟨_, _, _, -, -, herror⟩ := h.foreignKeyView_eq hs hset habstract
  exact ⟨_, herror, rfl⟩

/-- An association set without a rival has a view, if the fields of its foreign key are there. -/
theorem Built.exists_foreignKeyView (hs : s.Built) {fk : ForeignKey}
    (hset : s.relationshipOf id = .ok (set, a)) (hfk : a.foreignKey? = some fk)
    (habstract : a.isAbstract = false) (hsources : fk.SourcesResolve s)
    (halone : ∀ other, ¬ s.Rivals id other) : ∃ view, s.foreignKeyView id = .ok (some view) := by
  obtain ⟨hset', ha⟩ := relationshipOf_eq_ok_iff.1 hset
  obtain ⟨r, rfl, hr⟩ := exists_encodes hs hset' ha hfk
  obtain ⟨rival, hrival, hiff⟩ := hr.exists_rival hs hset
  obtain rfl : rival = none :=
    Option.not_isSome_iff_eq_none.1 fun h => not_exists.2 halone (hiff.1 h)
  obtain ⟨element, helement, hholds⟩ :=
    hs.verified.holds_end hset' ha hr.dependentSet hr.dependent
  have hq := hr.foreignKeyQuery_eq helement (Conceptual.isStrictSubtype_of_isAssignable hholds)
  obtain ⟨t, ht⟩ := (hr.exists_text_iff hs hset' ha).2 hsources
  exact ⟨_, (foreignKeyView_eq_ok_iff hset hfk).2 ⟨habstract, hrival, _, t, hq, ht, rfl⟩⟩

/-- An association set is in error exactly if it has a rival. -/
theorem Built.mappingFails_iff (hs : s.Built) {fk : ForeignKey}
    (hset : s.relationshipOf id = .ok (set, a)) (hfk : a.foreignKey? = some fk)
    (habstract : a.isAbstract = false) (hsources : fk.SourcesResolve s) :
    MappingFails (s.foreignKeyView id) ↔ ∃ other, s.Rivals id other := by
  constructor
  · rintro ⟨e, herror, -⟩
    by_contra halone
    obtain ⟨view, hview⟩ :=
      hs.exists_foreignKeyView hset hfk habstract hsources (not_exists.1 halone)
    cases hview.symm.trans herror
  · rintro ⟨other, h⟩
    exact h.mappingFails hs hset habstract

/-- Of the sets that draw from the same rows, either there is a single one, and it has a view, or
all are in error. -/
theorem Built.foreignKeyView_of_drawsFrom (hs : s.Built) {fk : ForeignKey}
    (ha : s.conceptual.association association = .ok a) (hfk : a.foreignKey? = some fk)
    (habstract : a.isAbstract = false) (hsources : fk.SourcesResolve s)
    (h : s.DrawsFrom id association rows) :
    ((∀ other, s.DrawsFrom other association rows → other = id) ∧
      ∃ view, s.foreignKeyView id = .ok (some view)) ∨
    ((∃ other, s.DrawsFrom other association rows ∧ other ≠ id) ∧
      ∀ other, s.DrawsFrom other association rows → MappingFails (s.foreignKeyView other)) := by
  have hrelated {other} (hother : s.DrawsFrom other association rows) :
      ∃ set, s.relationshipOf other = .ok (set, a) := by
    obtain ⟨set, a', -, hset, rfl, -⟩ := hother
    cases ha.symm.trans (relationshipOf_eq_ok_iff.1 hset).2
    exact ⟨set, hset⟩
  by_cases halone : ∀ other, s.DrawsFrom other association rows → other = id
  · refine .inl ⟨halone, ?_⟩
    obtain ⟨set, hset⟩ := hrelated h
    refine hs.exists_foreignKeyView hset hfk habstract hsources ?_
    rintro other ⟨hne, association', rows', hid, hother⟩
    obtain ⟨rfl, rfl⟩ := hid.unique h
    exact hne (halone other hother).symm
  · push Not at halone
    obtain ⟨other, hother, hne⟩ := halone
    refine .inr ⟨⟨other, hother, hne⟩, fun third hthird => ?_⟩
    obtain ⟨set, hset⟩ := hrelated hthird
    -- the other set is a rival of the first one, and the first one is a rival of all others
    by_cases heq : third = id
    · have hrivals : s.Rivals third other := ⟨heq ▸ hne.symm, _, _, hthird, hother⟩
      exact hrivals.mappingFails hs hset habstract
    · have hrivals : s.Rivals third id := ⟨heq, _, _, hthird, h⟩
      exact hrivals.mappingFails hs hset habstract

/-! ## Views of the whole schema -/

/-- A view describes what its association set draws. -/
theorem drawsFrom_of_describes {view : View} (h : s.foreignKeyView id = .ok (some view))
    (hdescribes : view.Describes association rows) : s.DrawsFrom id association rows := by
  obtain ⟨set, a, fk, q, hset, hfk, hq, hbody, -⟩ := exists_query_of_foreignKeyView h
  obtain ⟨r, element, restricted, hr, -, -, rfl⟩ := exists_encoded hq hfk
  obtain ⟨q, ends, hbody', hsource, hreturning⟩ := hdescribes
  cases hbody.symm.trans hbody'
  rw [Encoded.query, Query.source_addFilters] at hsource
  rw [Encoded.query, Query.returning_addFilters] at hreturning
  cases hsource
  cases hreturning
  rw [hr.association]
  exact hr.drawsFrom hset

/-- An association set with a view has no rivals. -/
theorem Built.not_rivals (hs : s.Built) {view : View} (h : s.foreignKeyView id = .ok (some view)) :
    ¬ s.Rivals id other := by
  intro hrivals
  obtain ⟨set, a, fk, q, hset, hfk, -⟩ := exists_query_of_foreignKeyView h
  obtain ⟨habstract, -⟩ := (foreignKeyView_eq_ok_iff hset hfk).1 h
  obtain ⟨e, herror, -⟩ := hrivals.mappingFails hs hset habstract
  cases h.symm.trans herror

/-- Two views that were made do not make instances of the same relationship from the same rows,
unless they are of one association set. -/
theorem Built.eq_of_describes (hs : s.Built) {view view' : View}
    (h : s.foreignKeyView id = .ok (some view)) (h' : s.foreignKeyView other = .ok (some view'))
    (hdescribes : view.Describes association rows)
    (hdescribes' : view'.Describes association rows) : id = other := by
  by_contra hne
  exact hs.not_rivals h ⟨hne, association, rows, drawsFrom_of_describes h hdescribes,
    drawsFrom_of_describes h' hdescribes'⟩

end Schema

/-- **One view for the instances of a relationship.** Let an association set have a foreign key
whose fields are there. Then it has a view, unless its relationship is abstract, which is an error
of its own, or there is another association set, in whichever container, that draws the same
relationship from the same entity set, which is an error in the mapping. So of the sets that draw
one relationship from one entity set either there is a single one, with a view, or all are in
error. No two views of a schema describe one relationship by the rows of one entity set. -/
theorem Schema.Built.foreignKeyView_exclusive {s : Schema} (hs : s.Built) :
    (∀ id set a fk, s.relationshipOf id = .ok (set, a) → a.foreignKey? = some fk →
      fk.SourcesResolve s →
      (a.isAbstract = true → ∃ name, s.extentName (.associationSet id) = .ok name ∧
        s.foreignKeyView id = .error (.error (.viewNotGenerated name))) ∧
      (a.isAbstract = false →
        (MappingFails (s.foreignKeyView id) ↔ ∃ other, s.Rivals id other) ∧
        ((∀ other, ¬ s.Rivals id other) → ∃ view, s.foreignKeyView id = .ok (some view)))) ∧
    (∀ association a fk rows id, s.conceptual.association association = .ok a →
      a.foreignKey? = some fk → a.isAbstract = false → fk.SourcesResolve s →
      s.DrawsFrom id association rows →
        ((∀ other, s.DrawsFrom other association rows → other = id) ∧
          ∃ view, s.foreignKeyView id = .ok (some view)) ∨
        ((∃ other, s.DrawsFrom other association rows ∧ other ≠ id) ∧
          ∀ other, s.DrawsFrom other association rows → MappingFails (s.foreignKeyView other))) ∧
    (∀ id id' view view' association rows, s.foreignKeyView id = .ok (some view) →
      s.foreignKeyView id' = .ok (some view') → view.Describes association rows →
      view'.Describes association rows → id = id') := by
  refine ⟨fun id set a fk hset hfk hsources => ⟨foreignKeyView_abstract hset hfk, fun habstract =>
    ⟨hs.mappingFails_iff hset hfk habstract hsources,
      hs.exists_foreignKeyView hset hfk habstract hsources⟩⟩, ?_, ?_⟩
  · intro association a fk rows id ha hfk habstract hsources h
    exact hs.foreignKeyView_of_drawsFrom ha hfk habstract hsources h
  · intro id id' view view' association rows h h' hdescribes hdescribes'
    exact hs.eq_of_describes h h' hdescribes hdescribes'

/-! ## A yard -/

namespace Yard

/-- Items name their order. In the north two association sets bind the items, in the south one. -/
def declarations : List Declaration := [
  .entity "Order", .field .key ⟨0⟩ "Id" .int32,
  .entity "Item", .field .key ⟨1⟩ "Id" .int32, .field .plain ⟨1⟩ "Order" .int32,
  .association "ItemOrder" (⟨1⟩, .many) (⟨0⟩, .one),
  .foreignKey ⟨0⟩ 1 [⟨⟨⟨1⟩, 1⟩, ⟨⟨0⟩, 0⟩⟩],
  .container "North", .entitySet ⟨0⟩ "Orders" ⟨0⟩, .entitySet ⟨0⟩ "Items" ⟨1⟩,
  .associationSet ⟨0⟩ "Placed" ⟨0⟩ ⟨⟨⟨0⟩, 1⟩, ⟨⟨0⟩, 0⟩⟩,
  .associationSet ⟨0⟩ "Shipped" ⟨0⟩ ⟨⟨⟨0⟩, 1⟩, ⟨⟨0⟩, 0⟩⟩,
  .container "South", .entitySet ⟨1⟩ "Orders" ⟨0⟩, .entitySet ⟨1⟩ "Items" ⟨1⟩,
  .associationSet ⟨1⟩ "Placed" ⟨0⟩ ⟨⟨⟨1⟩, 1⟩, ⟨⟨1⟩, 0⟩⟩]

/-- The relationship of items to orders. -/
def itemOrder : Association where
  name := "ItemOrder"
  ends := ⟨⟨"Item", ⟨1⟩, .many⟩, ⟨"Order", ⟨0⟩, .one⟩⟩
  constraints := [⟨1, 0, [⟨⟨⟨1⟩, 1⟩, ⟨⟨0⟩, 0⟩⟩]⟩]
  isForeignKey := true
  isAbstract := false

/-- The schema that they make. -/
def schema : Schema where
  conceptual := {
    models := [
      ⟨"Order", [⟨"Id", .scalar .int32, false, false⟩], .entity ⟨none, false, [⟨⟨0⟩, 0⟩]⟩⟩,
      ⟨"Item", [⟨"Id", .scalar .int32, false, false⟩, ⟨"Order", .scalar .int32, false, false⟩],
        .entity ⟨none, false, [⟨⟨1⟩, 0⟩]⟩⟩]
    associations := [itemOrder]
    containers := [
      ⟨"North", [⟨"Orders", ⟨0⟩⟩, ⟨"Items", ⟨1⟩⟩],
        [⟨"Placed", ⟨0⟩, ⟨⟨⟨0⟩, 1⟩, ⟨⟨0⟩, 0⟩⟩⟩, ⟨"Shipped", ⟨0⟩, ⟨⟨⟨0⟩, 1⟩, ⟨⟨0⟩, 0⟩⟩⟩]⟩,
      ⟨"South", [⟨"Orders", ⟨0⟩⟩, ⟨"Items", ⟨1⟩⟩],
        [⟨"Placed", ⟨0⟩, ⟨⟨⟨1⟩, 1⟩, ⟨⟨1⟩, 0⟩⟩⟩]⟩] }
  store := ⟨[], []⟩
  mapping := ⟨[]⟩

theorem built : schema.Built := ⟨declarations, _, rfl⟩

/-- The items of each container, and the association sets that draw from them. -/
theorem drawsFrom {id : AssociationSetId} {rows : EntitySetId}
    (h : (id, rows) ∈ [(⟨⟨0⟩, 0⟩, ⟨⟨0⟩, 1⟩), (⟨⟨0⟩, 1⟩, ⟨⟨0⟩, 1⟩), (⟨⟨1⟩, 0⟩, ⟨⟨1⟩, 1⟩)]) :
    schema.DrawsFrom id ⟨0⟩ rows := by
  simp only [List.mem_cons, List.not_mem_nil, or_false, Prod.mk.injEq] at h
  rcases h with ⟨rfl, rfl⟩ | ⟨rfl, rfl⟩ | ⟨rfl, rfl⟩
  all_goals exact ⟨_, itemOrder, _, rfl, rfl, rfl, rfl⟩

/-- In the south there is one association set. -/
theorem eq_of_drawsFrom {id : AssociationSetId} (h : schema.DrawsFrom id ⟨0⟩ ⟨⟨1⟩, 1⟩) :
    id = ⟨⟨1⟩, 0⟩ := by
  have hcontainer := h.container_eq built
  obtain ⟨container, index⟩ := id
  obtain rfl : container = ⟨1⟩ := hcontainer.symm
  obtain ⟨set, a, fk, hset, -⟩ := h
  cases index with
  | zero => rfl
  | succ index => cases hset

end Yard

/-- Neither of the association sets in the north has a view; the one in the south does. -/
theorem Yard.placed_or_shipped : schema.Built ∧
    Schema.MappingFails (schema.foreignKeyView ⟨⟨0⟩, 0⟩) ∧
    Schema.MappingFails (schema.foreignKeyView ⟨⟨0⟩, 1⟩) ∧
    ∃ view, schema.foreignKeyView ⟨⟨1⟩, 0⟩ = .ok (some view) := by
  obtain ⟨-, hgroup, -⟩ := built.foreignKeyView_exclusive
  have hsources : (⟨1, 0, [⟨⟨⟨1⟩, 1⟩, ⟨⟨0⟩, 0⟩⟩]⟩ : ForeignKey).SourcesResolve schema := by
    intro pair hpair
    obtain rfl := List.mem_singleton.1 hpair
    exact ⟨_, rfl⟩
  refine ⟨built, ?_⟩
  have hplaced : schema.DrawsFrom ⟨⟨0⟩, 0⟩ ⟨0⟩ ⟨⟨0⟩, 1⟩ := drawsFrom (by simp)
  have hshipped : schema.DrawsFrom ⟨⟨0⟩, 1⟩ ⟨0⟩ ⟨⟨0⟩, 1⟩ := drawsFrom (by simp)
  have hsouth : schema.DrawsFrom ⟨⟨1⟩, 0⟩ ⟨0⟩ ⟨⟨1⟩, 1⟩ := drawsFrom (by simp)
  obtain ⟨halone, -⟩ | ⟨-, hfails⟩ := hgroup ⟨0⟩ itemOrder _ _ _ rfl rfl rfl hsources hplaced
  · cases halone _ hshipped
  · obtain ⟨-, hview⟩ | ⟨⟨other, hother, hne⟩, -⟩ :=
      hgroup ⟨0⟩ itemOrder _ _ _ rfl rfl rfl hsources hsouth
    · exact ⟨hfails _ hplaced, hfails _ hshipped, hview⟩
    · exact absurd (eq_of_drawsFrom hother) hne

end QueryViews
