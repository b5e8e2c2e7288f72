import QueryViews.Proofs.View.Text

/-!
# Views of foreign keys are determined by contents

What an association set encodes is told by the content of its container, part by part
(`Schema.Tells.exists_encodes`), and so is whether another set describes the same instances
(`Schema.Tells.exists_rival_iff`). Hence the content settles what becomes of the view
(`Schema.Built.exists_settled`), and two containers with the same bytes have the same views
(`Schema.Built.foreignKeyViews_agree`), as far as it is clear what a name in them stands for.
-/

namespace QueryViews

namespace Schema

variable {s : Schema} {owner : Container} {closure : List Element} {k : Content}

/-! ## What is encoded, by name -/

/-- The sources of a key, by name, in the order of the key. -/
theorem exists_sources {fields : List ForeignKeyField}
    {pairs : List (Content.FieldName × Content.FieldName)} {key sources : List FieldId}
    {keyNames : List Content.FieldName}
    (hpairs : (fields.mapM fun pair => do
      return (← s.fieldName pair.source, ← s.fieldName pair.target)) = .ok pairs)
    (h : List.Forall₂ (fun target source => ⟨source, target⟩ ∈ fields) key sources)
    (hkey : key.mapM s.fieldName = .ok keyNames) :
    ∃ names, sources.mapM s.fieldName = .ok names ∧ List.Forall₂ (fun target source =>
      ∃ pair ∈ pairs, pair.2 = target ∧ pair.1.name = source) keyNames
        (names.map Content.FieldName.name) := by
  rw [mapM_eq_ok_iff] at hkey
  induction h generalizing keyNames with
  | nil =>
    cases hkey
    exact ⟨[], rfl, .nil⟩
  | @cons target source key sources hpair _ ih =>
    cases hkey with
    | @cons _ targetName _ _ htarget hrest =>
      obtain ⟨names, hnames, hforall⟩ := ih hrest
      obtain ⟨pair, hmem, hcontent⟩ := exists_mem_of_mapM hpairs hpair
      obtain ⟨sourceName, hsource, h⟩ := bind_eq_ok_iff.1 hcontent
      obtain ⟨targetName', htarget', hr⟩ := bind_eq_ok_iff.1 h
      cases hr
      cases htarget.symm.trans htarget'
      refine ⟨sourceName :: names, mapM_eq_ok_iff.2 (.cons hsource (mapM_eq_ok_iff.1 hnames)), ?_⟩
      exact .cons ⟨_, hmem, rfl, rfl⟩ hforall

section Sets

variable {id : AssociationSetId} {set : AssociationSet} {a : Association}

/-- An association set is at its place in its container. -/
theorem mem_of_associationSet (howner : s.conceptual.container id.container = .ok owner)
    (hset : s.conceptual.associationSet id = .ok set) :
    owner.associationSets[id.index]? = some set := by
  obtain ⟨owner', howner', hset⟩ := bind_eq_ok_iff.1 hset
  cases howner.symm.trans howner'
  exact found_eq_ok_iff.1 hset

/-- A set that is bound to an end is one of the container's, and goes by its qualified name. -/
theorem Verified.exists_boundSet (hv : s.Verified)
    (howner : s.conceptual.container id.container = .ok owner)
    (hset : s.conceptual.associationSet id = .ok set)
    (ha : s.conceptual.association set.association = .ok a) {index : Nat} {bound : EntitySetId}
    {e : AssociationEnd} (hbound : set.ends.get? index = some bound)
    (he : a.ends.get? index = some e) :
    ∃ found, bound.container = id.container ∧ owner.entitySets[bound.index]? = some found ∧
      s.conceptual.entitySet bound = .ok found ∧
      s.extentName (.entitySet bound) = .ok s!"{owner.name}.{found.name}" ∧
      s.conceptual.isAssignable e.model found.model = .ok true := by
  obtain ⟨hown, element, helement, hholds⟩ := hv.bound_end hset ha hbound he
  obtain ⟨found, hfound, hr⟩ := bind_eq_ok_iff.1 helement
  cases hr
  have howner' : s.conceptual.container bound.container = .ok owner := hown ▸ howner
  obtain ⟨owner', ho, hget⟩ := bind_eq_ok_iff.1 hfound
  cases howner'.symm.trans ho
  exact ⟨found, hown, found_eq_ok_iff.1 hget, hfound, bind_eq_ok_iff.2 ⟨owner, howner',
    bind_eq_ok_iff.2 ⟨found, hfound, rfl⟩⟩, hholds⟩

/-- What the content of an association set has for a set that is bound to an end. -/
theorem exists_boundName {c : Content.AssociationSet} (hc : s.associationSetContent set = .ok c)
    {index : Nat} {bound : EntitySetId} {found : EntitySet}
    (hbound : set.ends.get? index = some bound)
    (hfound : s.conceptual.entitySet bound = .ok found) :
    c.ends.get? index = some found.name := by
  obtain ⟨-, -, hends⟩ := associationSetContent_eq_ok_iff.1 hc
  obtain ⟨name, hname, h⟩ := get?_of_resolve hends hbound
  obtain ⟨found', hfound', hr⟩ := bind_eq_ok_iff.1 h
  cases hfound.symm.trans hfound'
  cases hr
  exact hname

/-- The ends of a relationship in the closure, by name: their types are in the closure too. -/
theorem Tells.exists_end (h : s.Tells owner closure k) (hset : set ∈ owner.associationSets)
    (ha : s.conceptual.association set.association = .ok a) {c : Content.Association}
    (hc : s.associationContent set.association = .ok c) {index : Nat} {e : AssociationEnd}
    (he : a.ends.get? index = some e) : ∃ end', c.ends.get? index = some end' ∧
      s.modelName e.model = .ok end'.type ∧ e.multiplicity = end'.multiplicity ∧
      ∀ key, s.conceptual.keyFields e.model = .ok key →
        ∃ names, key.mapM s.fieldName = .ok names ∧ k.Key end'.type names := by
  obtain ⟨a', ha', -, -, -, hends, -⟩ := associationContent_eq_ok_iff.1 hc
  cases ha.symm.trans ha'
  obtain ⟨end', hend, hcontent⟩ := get?_of_resolve hends he
  obtain ⟨type, htype, hr⟩ := bind_eq_ok_iff.1 hcontent
  cases hr
  refine ⟨_, hend, htype, rfl, fun key hkey => h.key ?_ hkey htype⟩
  refine Conceptual.mem_closure_of_refersTo h.closed
    (Conceptual.association_mem_closure h.closed hset) (bind_eq_ok_iff.2 ⟨a, ha, rfl⟩) ?_
  exact List.mem_map.2 ⟨e, List.mem_of_getElem? he, rfl⟩

/-- The constraint that encodes a relationship, by name. -/
theorem exists_foreignKeyContent (ha : s.conceptual.association set.association = .ok a)
    {c : Content.Association} (hc : s.associationContent set.association = .ok c) {fk : ForeignKey}
    (hfk : a.foreignKey? = some fk) :
    ∃ fk', c.foreignKey? = some fk' ∧ s.constraintContent fk = .ok fk' := by
  obtain ⟨a', ha', -, hforeign, -, -, hconstraints⟩ := associationContent_eq_ok_iff.1 hc
  cases ha.symm.trans ha'
  obtain ⟨hflag, hone⟩ := Association.foreignKey?_eq_some_iff.1 hfk
  rw [hone, mapM_eq_ok_iff] at hconstraints
  generalize hall : c.constraints = constraints at hconstraints
  cases hconstraints with
  | cons hfirst hrest =>
    cases hrest
    exact ⟨_, Content.Association.foreignKey?_eq_some_iff.2 ⟨hforeign ▸ hflag, hall⟩, hfirst⟩

/-- What an association set encodes is told, part by part, by the content. -/
theorem Tells.exists_encodes (hs : s.Built) (h : s.Tells owner closure k)
    (howner : s.conceptual.container id.container = .ok owner)
    (hset : s.conceptual.associationSet id = .ok set)
    (ha : s.conceptual.association set.association = .ok a) {r : Encoded}
    (hr : s.Encodes set a r) : ∃ e element restricted, k.Encodes e ∧
      s.associationSetContent set = .ok e.set ∧ a.isAbstract = e.isAbstract ∧
      s.elementType r.dependentSet = .ok element ∧
      s.conceptual.isStrictSubtype r.dependent.model element = .ok restricted ∧
      s.Reads owner.name r restricted e := by
  have hmem : set ∈ owner.associationSets :=
    List.mem_of_getElem? (mem_of_associationSet howner hset)
  -- the set and its relationship are told, so are both ends with the sets bound to them
  obtain ⟨c, hc, hcontent⟩ := exists_mem_of_mapM h.associationSets hmem
  obtain ⟨ca, hca, hcontent'⟩ := h.exists_association hmem
  obtain ⟨-, hrelationship, -⟩ := associationSetContent_eq_ok_iff.1 hcontent
  obtain ⟨a', ha', hname, -, habstract, -, -⟩ := associationContent_eq_ok_iff.1 hcontent'
  cases ha.symm.trans ha'
  obtain ⟨pe, hpe, -, hpm, hpkey⟩ := h.exists_end hmem ha hcontent' hr.principal
  obtain ⟨de, hde, hdtype, -, hdkey⟩ := h.exists_end hmem ha hcontent' hr.dependent
  obtain ⟨ps, -, -, hps, hpsName, -⟩ :=
    hs.verified.exists_boundSet howner hset ha hr.principalSet hr.principal
  obtain ⟨ds, -, hdsMem, hds, hdsName, hholds⟩ :=
    hs.verified.exists_boundSet howner hset ha hr.dependentSet hr.dependent
  obtain ⟨cs, hcs, hcontent''⟩ :=
    exists_mem_of_mapM h.entitySets (List.mem_of_getElem? hdsMem)
  obtain ⟨hcsName, hcsType⟩ := entitySetContent_eq_ok_iff.1 hcontent''
  -- the two keys, and for each field of the principal's key the source that a pair gives it
  obtain ⟨keyNames, hkeyNames, hkey⟩ := hpkey _ hr.principalKey
  obtain ⟨ownNames, hownNames, hown⟩ := hdkey _ hr.ownKey
  obtain ⟨fk, hfk, hconstraint⟩ := exists_foreignKeyContent ha hcontent' hr.fk
  obtain ⟨pairs, hpairs, hfkeq⟩ := bind_eq_ok_iff.1 hconstraint
  cases hfkeq
  obtain ⟨sources, hsources, hforall⟩ := exists_sources hpairs
    (forall₂_sourceFields (hr.linesUp hs ha).targets.symm.subset) hkeyNames
  have hplace := hr.dependent_eq hs ha
  have hsame := hs.verified.eq_iff_modelName_eq hdtype hcsType
  refine ⟨⟨c, ca.isAbstract, r.fk.principal, pe, de, ps.name, ds.name, cs.type, ownNames,
    sources.map Content.FieldName.name⟩, ds.model, !decide (r.dependent.model = ds.model), ?_,
    hcontent, habstract, bind_eq_ok_iff.2 ⟨ds, hds, rfl⟩,
    Conceptual.isStrictSubtype_of_isAssignable hholds, ?_⟩
  · have hdependent := exists_boundName hcontent hr.dependentSet hds
    rw [hplace] at hde hdependent
    refine ⟨hc, ⟨ca, hca, ⟨r.fk.principal, pairs⟩, ?_⟩,
      exists_boundName hcontent hr.principalSet hps, hdependent, ?_, hown⟩
    · refine ⟨?_, rfl, hfk, rfl, hpe, hde, keyNames, hkey, hforall⟩
      obtain ⟨_, ha', hname'⟩ := associationName_eq_ok_iff.1 hrelationship
      cases ha.symm.trans ha'
      exact hname.symm.trans hname'
    · rw [hcsName]
      exact hcs
  · refine ⟨hr.association ▸ hrelationship, hplace, hpm, hdtype, hpsName, hdsName, hownNames,
      ⟨sources, hsources, rfl⟩, ?_⟩
    rw [Bool.not_eq_true', decide_eq_false_iff_not, not_iff_not]
    exact hsame

/-- Whether there is a rival is told by the content, where the name of the relationship stands for
one. -/
theorem Tells.exists_rival_iff (hs : s.Built) (h : s.Tells owner closure k)
    (howner : s.conceptual.container id.container = .ok owner)
    (hset : s.conceptual.associationSet id = .ok set)
    (ha : s.conceptual.association set.association = .ok a) {r : Encoded}
    (hr : s.Encodes set a r) {e : Content.Encoded} (he : s.associationSetContent set = .ok e.set)
    {restricted : Bool} (hreads : s.Reads owner.name r restricted e)
    (hdistinguishes : k.Distinguishes e.set.association) :
    ∃ rival, s.rival? id set r.fk = .ok rival ∧ (rival.isSome ↔ k.Contested e) := by
  have hget := mem_of_associationSet howner hset
  obtain ⟨hentity, hassociation, -⟩ := List.nodup_append.1 (hs.verified.nodup_extentNames
    (mem_of_found howner))
  obtain ⟨hname, hrelationship, -⟩ := associationSetContent_eq_ok_iff.1 he
  -- the dependent set is the one of the container that has the name
  obtain ⟨found, hown, hplace, hfound, hfoundName, -⟩ :=
    hs.verified.exists_boundSet howner hset ha hr.dependentSet hr.dependent
  have hdependent : found.name = e.dependentSet :=
    qualified_inj.1 (Except.ok.inj (hfoundName.symm.trans hreads.dependentSet))
  obtain ⟨rival, hrival, hiff⟩ := exists_rival howner
  refine ⟨rival, hrival, hiff.trans ⟨?_, ?_⟩⟩
  -- a rival in the container is told in the content, under another name
  · rintro ⟨j, other, hj, hne, heq, hends⟩
    obtain ⟨c, hc, hcontent⟩ := exists_mem_of_mapM h.associationSets (List.mem_of_getElem? hj)
    obtain ⟨hname', hrelationship', -⟩ := associationSetContent_eq_ok_iff.1 hcontent
    refine ⟨c, hc, fun hsame => hne ?_, ?_, ?_⟩
    · exact place_eq_of_nodup hassociation hj hget (hname'.trans (hsame.trans hname.symm))
    · rw [heq] at hrelationship'
      exact Except.ok.inj (hrelationship'.symm.trans hrelationship)
    · rw [hr.dependentSet] at hends
      rw [← hreads.place, ← hdependent]
      exact exists_boundName hcontent hends hfound
  -- what is told has a relationship of the same name, so it is the same relationship
  · rintro ⟨c, hc, hne, hsame, hends⟩
    obtain ⟨other, hmem, hcontent⟩ := exists_of_mem_mapM h.associationSets hc
    obtain ⟨hname', hrelationship', -⟩ := associationSetContent_eq_ok_iff.1 hcontent
    obtain ⟨j, hj⟩ := List.mem_iff_getElem?.1 hmem
    have heq : other.association = set.association :=
      h.association_eq_of_name (List.mem_of_getElem? hget) hmem hrelationship
        (hsame ▸ hrelationship') hdistinguishes
    refine ⟨j, other, hj, fun hindex => hne ?_, heq, ?_⟩
    · cases (hindex ▸ hj).symm.trans hget
      exact hname'.symm.trans hname
    · obtain ⟨bound, hbound⟩ : ∃ bound, other.ends.get? r.fk.dependent = some bound :=
        ⟨_, List.getElem?_eq_getElem (lt_two_of_get?_eq_some hr.dependent)⟩
      let otherId : AssociationSetId := ⟨id.container, j⟩
      have hother : s.conceptual.associationSet otherId = .ok other :=
        bind_eq_ok_iff.2 ⟨owner, howner, found_eq_ok_iff.2 hj⟩
      have howner' : s.conceptual.container otherId.container = .ok owner := howner
      obtain ⟨found', hown', hplace', hfound', -⟩ :=
        hs.verified.exists_boundSet howner' hother (heq ▸ ha) hbound hr.dependent
      have hends' := exists_boundName hcontent hbound hfound'
      rw [hreads.place, hends, Option.some.injEq, ← hdependent] at hends'
      have hsame : bound = r.dependentSet := congrArg₂ EntitySetId.mk (hown'.trans hown.symm)
        (place_eq_of_nodup hentity hplace' hplace hends'.symm)
      rw [hbound, hr.dependentSet, hsame]

/-! ## What becomes of the view -/

/-- What becomes of the view of an association set, with the text that it has. -/
def ComesTo (s : Schema) (id : AssociationSetId) : Option (Option String) → Prop
  | none => s.hasForeignKeyView id = .ok false ∧ s.foreignKeyView id = .ok none
  | some none => s.hasForeignKeyView id = .ok true ∧ ∃ f, s.foreignKeyView id = .error f
  | some (some t) => s.hasForeignKeyView id = .ok true ∧
      ∃ view, s.foreignKeyView id = .ok (some view) ∧ view.text = t

/-- A relationship that a foreign key encodes by its content is encoded by one. -/
theorem exists_foreignKey_of_content (ha : s.conceptual.association set.association = .ok a)
    {c : Content.Association} (hc : s.associationContent set.association = .ok c)
    {fk : Content.ForeignKey} (hfk : c.foreignKey? = some fk) :
    ∃ fk', a.foreignKey? = some fk' := by
  obtain ⟨a', ha', -, hforeign, -, -, hconstraints⟩ := associationContent_eq_ok_iff.1 hc
  cases ha.symm.trans ha'
  obtain ⟨hflag, hone⟩ := Content.Association.foreignKey?_eq_some_iff.1 hfk
  rw [hone, mapM_eq_ok_iff] at hconstraints
  generalize hall : a.constraints = constraints at hconstraints
  cases hconstraints with
  | cons _ hrest =>
    cases hrest
    exact ⟨_, Association.foreignKey?_eq_some_iff.2 ⟨hforeign ▸ hflag, hall⟩⟩

/-- Where no foreign key encodes the relationship of a set, the content has none for it. -/
theorem Tells.settles_none (hs : s.Built) (h : s.Tells owner closure k)
    (howner : s.conceptual.container id.container = .ok owner)
    (hset : s.conceptual.associationSet id = .ok set)
    (ha : s.conceptual.association set.association = .ok a) (hfk : a.foreignKey? = none)
    {c : Content.AssociationSet} (hcontent : s.associationSetContent set = .ok c)
    (hdistinguishes : k.Distinguishes c.association) : k.Settles set.name none := by
  have hget := mem_of_associationSet howner hset
  have happart := h.namesApart hs.verified (mem_of_found howner)
  obtain ⟨c', hc, hcontent'⟩ := exists_mem_of_mapM h.associationSets (List.mem_of_getElem? hget)
  cases hcontent.symm.trans hcontent'
  obtain ⟨hname, hrelationship, -⟩ := associationSetContent_eq_ok_iff.1 hcontent
  refine .none fun e he hename => ?_
  -- the relationship that the content encodes is the one of the set
  have hset' : e.set = c := happart.associationSets _ he.set _ hc (hename.trans hname)
  obtain ⟨ca, hca, hassociation⟩ := h.exists_association (List.mem_of_getElem? hget)
  obtain ⟨ca', hca', fk, hof⟩ := he.association
  obtain ⟨a', ha', haname⟩ := associationName_eq_ok_iff.1 hrelationship
  obtain ⟨a'', ha'', hcaname, -⟩ := associationContent_eq_ok_iff.1 hassociation
  cases ha.symm.trans ha'
  cases ha.symm.trans ha''
  have hsame : ca' = ca :=
    hdistinguishes.eq hca' hca (hset' ▸ hof.name) (hcaname.symm.trans haname)
  obtain ⟨fk', hfk'⟩ := exists_foreignKey_of_content ha hassociation (hsame ▸ hof.foreignKey)
  cases hfk.symm.trans hfk'

/-- What the content settles where a foreign key encodes the relationship of a set: there is no view
exactly if the relationship is abstract or another set has its instances, and otherwise the view has
the text of the content. -/
theorem Tells.settles_some (hs : s.Built) (h : s.Tells owner closure k)
    (howner : s.conceptual.container id.container = .ok owner)
    (hset : s.conceptual.associationSet id = .ok set)
    (ha : s.conceptual.association set.association = .ok a) {fk : ForeignKey}
    (hfk : a.foreignKey? = some fk) {c : Content.AssociationSet}
    (hcontent : s.associationSetContent set = .ok c)
    (hdistinguishes : k.Distinguishes c.association) :
    ∃ outcome, k.Settles set.name outcome ∧ s.ComesTo id outcome := by
  have hrelationship := relationshipOf_eq_ok_iff.2 ⟨hset, ha⟩
  have hhas := hasForeignKeyView_eq hrelationship
  rw [hfk] at hhas
  obtain ⟨r, rfl, hr⟩ := Schema.exists_encodes hs hset ha hfk
  obtain ⟨e, element, restricted, he, hcontent', habstract, helement, hrestricted, hreads⟩ :=
    h.exists_encodes hs howner hset ha hr
  cases hcontent.symm.trans hcontent'
  have hname := (associationSetContent_eq_ok_iff.1 hcontent).1
  obtain ⟨rival, hrival, hcontested⟩ :=
    h.exists_rival_iff hs howner hset ha hr hcontent hreads hdistinguishes
  have hview (view : Option View) : s.foreignKeyView id = .ok view ↔ _ :=
    foreignKeyView_eq_ok_iff hrelationship hfk
  -- what keeps the view from being made can be told from the content, on both sides
  by_cases hrefused : e.isAbstract = true ∨ k.Contested e
  · refine ⟨some none, .refused he hname.symm hrefused, hhas, ?_⟩
    cases hresult : s.foreignKeyView id with
    | error f => exact ⟨f, rfl⟩
    | ok view =>
      obtain ⟨hconcrete, hnone, -⟩ := (hview view).1 hresult
      cases hrival.symm.trans hnone
      rcases hrefused with hrefused | hrefused
      · cases (habstract ▸ hconcrete).symm.trans hrefused
      · cases hcontested.2 hrefused
  · obtain ⟨hconcrete, hfree⟩ := not_or.1 hrefused
    have hconcrete : e.isAbstract = false := Bool.eq_false_iff.2 hconcrete
    have hnone : rival = none := Option.not_isSome_iff_eq_none.1 fun h => hfree (hcontested.1 h)
    have htext := hreads.text_query
    rw [h.name] at htext
    have hmade := (hview _).2 ⟨habstract.trans hconcrete, hnone ▸ hrival, _, _,
      hr.foreignKeyQuery_eq helement hrestricted, htext, rfl⟩
    exact ⟨_, .made he hname.symm hconcrete hfree, hhas, _, hmade, rfl⟩

/-- The content of a container settles what becomes of the views of its association sets. -/
theorem Built.exists_settled (hs : s.Built) (hk : s.content id.container = .ok (some k))
    (hset : s.conceptual.associationSet id = .ok set) :
    ∃ c ∈ k.associationSets, c.name = set.name ∧
      s.associationName set.association = .ok c.association ∧ k.NamesApart ∧
      (k.Distinguishes c.association →
        ∃ outcome, k.Settles set.name outcome ∧ s.ComesTo id outcome) := by
  obtain ⟨owner, closure, howner, h⟩ := exists_tells hk
  have happart := h.namesApart hs.verified (mem_of_found howner)
  obtain ⟨c, hc, hcontent⟩ := exists_mem_of_mapM h.associationSets
    (List.mem_of_getElem? (mem_of_associationSet howner hset))
  obtain ⟨hname, hrelationship, -⟩ := associationSetContent_eq_ok_iff.1 hcontent
  refine ⟨c, hc, hname.symm, hrelationship, happart, fun hdistinguishes => ?_⟩
  obtain ⟨a, ha, -⟩ := associationName_eq_ok_iff.1 hrelationship
  cases hfk : a.foreignKey? with
  | some fk => exact h.settles_some hs howner hset ha hfk hcontent hdistinguishes
  | none =>
    have hrelationshipOf := relationshipOf_eq_ok_iff.2 ⟨hset, ha⟩
    have hhas := hasForeignKeyView_eq hrelationshipOf
    rw [hfk] at hhas
    exact ⟨none, h.settles_none hs howner hset ha hfk hcontent hdistinguishes, hhas,
      foreignKeyView_of_none hrelationshipOf hfk⟩

end Sets

end Schema

/-! ## Orders and items -/

namespace Orders

/-- A relationship of items to orders. A foreign key encodes it if there are pairs for one. -/
def relationship (name : String) (pairs : List ForeignKeyField) : Association where
  name := name
  ends := ⟨⟨"Item", ⟨1⟩, .many⟩, ⟨"Order", ⟨0⟩, .one⟩⟩
  constraints := if pairs.isEmpty then [] else [⟨1, 0, pairs⟩]
  isForeignKey := !pairs.isEmpty
  isAbstract := false

/-- Declares the relationship of a name, and the foreign key if there are pairs for one. -/
def declareRelationship (id : AssociationId) (name : String) (pairs : List ForeignKeyField) :
    List Declaration :=
  .association name (⟨1⟩, .many) (⟨0⟩, .one) ::
    if pairs.isEmpty then [] else [.foreignKey id 1 pairs]

/-- The source fields of an item in the order of the key, and the other way round. -/
def straight : List ForeignKeyField := [⟨⟨⟨1⟩, 1⟩, ⟨⟨0⟩, 0⟩⟩, ⟨⟨⟨1⟩, 2⟩, ⟨⟨0⟩, 1⟩⟩]

/-- The source fields the other way round. -/
def crossed : List ForeignKeyField := [⟨⟨⟨1⟩, 2⟩, ⟨⟨0⟩, 0⟩⟩, ⟨⟨⟨1⟩, 1⟩, ⟨⟨0⟩, 1⟩⟩]

/-- The two types, with names for the key fields of orders. -/
def types (key : String × String) : List Declaration := [
  .entity "Order", .field .key ⟨0⟩ key.1 .int32, .field .key ⟨0⟩ key.2 .int32,
  .entity "Item", .field .key ⟨1⟩ "Id" .int32, .field .nullable ⟨1⟩ "A" .int32,
  .field .nullable ⟨1⟩ "B" .int32]

/-- The sets, with the relationships of current and of past orders. -/
def sets (current past : AssociationId) : List Declaration := [
  .container "Shop", .entitySet ⟨0⟩ "Orders" ⟨0⟩, .entitySet ⟨0⟩ "Items" ⟨1⟩,
  .associationSet ⟨0⟩ "Current" current ⟨⟨⟨0⟩, 1⟩, ⟨⟨0⟩, 0⟩⟩,
  .associationSet ⟨0⟩ "Past" past ⟨⟨⟨0⟩, 1⟩, ⟨⟨0⟩, 0⟩⟩,
  .storeContainer "Db", .mapContainers ⟨0⟩ ⟨0⟩]

/-- Orders have a key of two fields. Items are bound to orders by two association sets, of one or
the other of two relationships. -/
def declarations (key : String × String) (first second : String × List ForeignKeyField)
    (current past : AssociationId) : List Declaration :=
  types key ++ declareRelationship ⟨0⟩ first.1 first.2 ++
    declareRelationship ⟨1⟩ second.1 second.2 ++ sets current past

/-- The schema that they make. -/
def schema (key : String × String) (first second : String × List ForeignKeyField)
    (current past : AssociationId) : Schema where
  conceptual := {
    models := [
      ⟨"Order", [⟨key.1, .scalar .int32, false, false⟩, ⟨key.2, .scalar .int32, false, false⟩],
        .entity ⟨none, false, [⟨⟨0⟩, 0⟩, ⟨⟨0⟩, 1⟩]⟩⟩,
      ⟨"Item", [⟨"Id", .scalar .int32, false, false⟩, ⟨"A", .scalar .int32, true, false⟩,
        ⟨"B", .scalar .int32, true, false⟩], .entity ⟨none, false, [⟨⟨1⟩, 0⟩]⟩⟩]
    associations := [relationship first.1 first.2, relationship second.1 second.2]
    containers := [⟨"Shop", [⟨"Orders", ⟨0⟩⟩, ⟨"Items", ⟨1⟩⟩],
      [⟨"Current", current, ⟨⟨0⟩, 1⟩, ⟨⟨0⟩, 0⟩⟩, ⟨"Past", past, ⟨⟨0⟩, 1⟩, ⟨⟨0⟩, 0⟩⟩]⟩] }
  store := ⟨[⟨"Db", []⟩], []⟩
  mapping := ⟨[⟨⟨0⟩, ⟨0⟩, []⟩]⟩

/-- What is issued, with what comes after the first relationship: a foreign key issues nothing. -/
def issued (next last : Issued) : List Issued := [
  .model ⟨0⟩, .field ⟨⟨0⟩, 0⟩, .field ⟨⟨0⟩, 1⟩, .model ⟨1⟩, .field ⟨⟨1⟩, 0⟩, .field ⟨⟨1⟩, 1⟩,
  .field ⟨⟨1⟩, 2⟩, .association ⟨0⟩, next, last, .container ⟨0⟩, .entitySet ⟨⟨0⟩, 0⟩,
  .entitySet ⟨⟨0⟩, 1⟩, .associationSet ⟨⟨0⟩, 0⟩, .associationSet ⟨⟨0⟩, 1⟩, .store ⟨0⟩, .nothing]

/-- What the content has for a relationship. -/
def told (name : String) (pairs : List (String × String)) : Content.Association where
  name := name
  isForeignKey := !pairs.isEmpty
  isAbstract := false
  ends := ⟨⟨"Item", "Item", .many⟩, ⟨"Order", "Order", .one⟩⟩
  constraints := if pairs.isEmpty then [] else
    [⟨1, pairs.map fun pair => (⟨"Item", pair.1⟩, ⟨"Order", pair.2⟩)⟩]

/-- What the mapping says, with names for the key fields and for the relationships of the two
sets. -/
def content (key : String × String) (sets : String × String)
    (associations : List Content.Association) : Content where
  conceptual := "Shop"
  store := "Db"
  entitySets := [⟨"Orders", "Order"⟩, ⟨"Items", "Item"⟩]
  associationSets :=
    [⟨"Current", sets.1, ⟨"Items", "Orders"⟩⟩, ⟨"Past", sets.2, ⟨"Items", "Orders"⟩⟩]
  types := [
    ⟨"Item", .entity none false [⟨"Item", "Id"⟩], [⟨"Id", false, false, .scalar .int32⟩,
      ⟨"A", true, false, .scalar .int32⟩, ⟨"B", true, false, .scalar .int32⟩]⟩,
    ⟨"Order", .entity none false [⟨"Order", key.1⟩, ⟨"Order", key.2⟩],
      [⟨key.1, false, false, .scalar .int32⟩, ⟨key.2, false, false, .scalar .int32⟩]⟩]
  associations := associations
  tables := []
  extents := []

/-- In whatever order the relationships are told, the content says the same. -/
theorem same {key sets : String × String} {l l' : List Content.Association}
    (h : Rearranged Content.Association.Same l l') :
    (content key sets l).Same (content key sets l') :=
  ⟨rfl, rfl, .refl _, .refl _, Multiset.rel_refl_of_refl_on fun _ _ => ⟨rfl, rfl, .refl _⟩, h,
    .zero, .zero⟩

/-- The view of the current orders of items, with the sources of the foreign key in some order. -/
def view (sources : List FieldId) (fields : String) : View where
  key := .extent (.associationSet ⟨⟨0⟩, 0⟩)
  body := .query ⟨.entitySet ⟨⟨0⟩, 1⟩, .truth, .relationship ⟨0⟩
    [.ref ⟨⟨0⟩, 1⟩ [.field ⟨⟨1⟩, 0⟩], .ref ⟨⟨0⟩, 0⟩ (sources.map .field)]⟩
  text := "SELECT VALUE ItemOrder(CreateRef(Shop.Items, ROW(T.Id)), CreateRef(Shop.Orders, ROW(" ++
    fields ++ "))) FROM Shop.Items AS T"
  origin := .foreignKey

/-- Items and orders, as they are declared, and with the relationships and the pairs of the foreign
key the other way round. -/
def declared : Schema :=
  schema ("Year", "Number") ("ItemOrder", straight) ("Return", []) ⟨0⟩ ⟨1⟩

/-- The same with the relationships and the pairs the other way round. -/
def redeclared : Schema :=
  schema ("Year", "Number") ("Return", []) ("ItemOrder", straight.reverse) ⟨1⟩ ⟨0⟩

theorem built : declared.Built :=
  ⟨declarations ("Year", "Number") ("ItemOrder", straight) ("Return", []) ⟨0⟩ ⟨1⟩,
    issued .nothing (.association ⟨1⟩), by cbv⟩

theorem built_redeclared : redeclared.Built :=
  ⟨declarations ("Year", "Number") ("Return", []) ("ItemOrder", straight.reverse) ⟨1⟩ ⟨0⟩,
    issued (.association ⟨1⟩) .nothing, by cbv⟩

/-- What is said by the first of them. -/
def declaredContent : Content :=
  content ("Year", "Number") ("ItemOrder", "Return")
    [told "Return" [], told "ItemOrder" [("A", "Year"), ("B", "Number")]]

/-- What is said by the second. -/
def redeclaredContent : Content :=
  content ("Year", "Number") ("ItemOrder", "Return")
    [told "Return" [], told "ItemOrder" [("B", "Number"), ("A", "Year")]]

theorem content_eq : declared.content ⟨0⟩ = .ok (some declaredContent) := by cbv

theorem content_eq_redeclared : redeclared.content ⟨0⟩ = .ok (some redeclaredContent) := by cbv

/-- In whatever order its pairs are, a relationship says the same. -/
theorem told_same {name : String} {pairs pairs' : List (String × String)} (h : pairs.Perm pairs') :
    (told name pairs).Same (told name pairs') := by
  have hempty : pairs.isEmpty = pairs'.isEmpty := by
    rw [Bool.eq_iff_iff, List.isEmpty_iff, List.isEmpty_iff]
    exact ⟨fun hnil => List.perm_nil.1 (hnil ▸ h.symm), fun hnil => List.perm_nil.1 (hnil ▸ h)⟩
  refine ⟨rfl, congrArg (!·) hempty, rfl, rfl, ?_⟩
  rw [told, told, ← hempty]
  cases pairs.isEmpty with
  | true => exact .zero
  | false => exact .cons ⟨rfl, h.map _⟩ .zero

/-- Both have the same bytes. -/
theorem encode_eq : declaredContent.encode = redeclaredContent.encode :=
  (same (.cons (told_same (.refl _)) (.cons (told_same (.swap _ _ _)) .zero))).encode_eq

theorem encode_short : Encoding.Short declaredContent.encode.length := by
  simp only [declaredContent, Content.encode, content, told, List.isEmpty_nil, List.isEmpty_cons,
    List.map_cons, List.map_nil, if_true, Bool.false_eq_true, if_false,
    Content.EntitySet.encode, Content.AssociationSet.encode,
    Content.TypeContent.encode, Content.TypeKind.encode, Content.encodeBase,
    Content.FieldName.encode, Content.Field.encode, Content.FieldType.encode,
    Content.Association.encode, Content.AssociationEnd.encode, Content.ForeignKey.encode,
    Encoding.length_unordered, Encoding.length_string, Encoding.length_sequence,
    Encoding.length_sized, List.flatMap_cons, List.flatMap_nil, List.length_append,
    List.length_cons]
  decide

theorem fits : declaredContent.Fits := Content.encode_measured encode_short

theorem fits_redeclared : redeclaredContent.Fits :=
  Content.encode_measured (encode_eq ▸ encode_short)

/-- The name of the relationship belongs to one relationship, and its key fields have names that
differ. -/
theorem distinguishes : declaredContent.Distinguishes "ItemOrder" := by decide

/-- The view of current orders. -/
theorem view_eq : declared.foreignKeyView ⟨⟨0⟩, 0⟩ =
    .ok (some (view [⟨⟨1⟩, 1⟩, ⟨⟨1⟩, 2⟩] "T.A, T.B")) := by
  cbv

end Orders

/-! ## The same bytes, the same views -/

/-- **The view of a foreign key is determined by the bytes of the mapping.** Let two mapped
containers, of built schemas, have the same bytes, every length in which can be written, and let
each have an association set of one name. If it is clear what the name of its relationship stands
for, then foreign keys make the views of both sets or of neither, and the one has a view exactly if
the other has one, with the same text. -/
theorem Schema.Built.foreignKeyViews_agree {s s' : Schema} {k k' : Content}
    {id id' : AssociationSetId} {set set' : AssociationSet} (hs : s.Built) (hs' : s'.Built)
    (hk : s.content id.container = .ok (some k)) (hk' : s'.content id'.container = .ok (some k'))
    (hfits : k.Fits) (hfits' : k'.Fits) (hbytes : k.encode = k'.encode)
    (hset : s.conceptual.associationSet id = .ok set)
    (hset' : s'.conceptual.associationSet id' = .ok set') (hname : set.name = set'.name)
    (hdistinguishes : ∀ n, s.associationName set.association = .ok n → k.Distinguishes n) :
    (∃ b, s.hasForeignKeyView id = .ok b ∧ s'.hasForeignKeyView id' = .ok b) ∧
      Agree (fun view view' => view.map View.text = view'.map View.text)
        (s.foreignKeyView id) (s'.foreignKeyView id') := by
  have hindexed := hs.verified.indexed_content hk
  have hindexed' := hs'.verified.indexed_content hk'
  have hsame : k.Same k' := Content.same_of_encode_eq hfits hfits' hindexed hindexed' hbytes
  have hsame' : k'.Same k :=
    Content.same_of_encode_eq hfits' hfits hindexed' hindexed hbytes.symm
  obtain ⟨c, hc, hcname, hrelationship, happart, hsettled⟩ := hs.exists_settled hk hset
  obtain ⟨c', hc', hcname', -, happart', hsettled'⟩ := hs'.exists_settled hk' hset'
  have hapart := hdistinguishes _ hrelationship
  -- the sets go by one name in contents that say the same, and what becomes of a set can be told
  have heq : c = c' := happart'.associationSets _ (hsame.associationSets.subset hc) _ hc'
    (hcname.trans (hname.trans hcname'.symm))
  have hapart' : k'.Distinguishes c'.association := heq ▸ hapart.of_same hsame'
  obtain ⟨outcome, hsettles, hcomes⟩ := hsettled hapart
  obtain ⟨outcome', hsettles', hcomes'⟩ := hsettled' hapart'
  obtain rfl : outcome = outcome' :=
    (hname ▸ hsettles.of_same hsame hsame').unique happart' hc' hcname' hapart' hsettles'
  match outcome, hcomes, hcomes' with
  | none, ⟨hhas, hview⟩, ⟨hhas', hview'⟩ =>
    rw [hview, hview']
    exact ⟨⟨_, hhas, hhas'⟩, .ok rfl⟩
  | some none, ⟨hhas, f, hview⟩, ⟨hhas', f', hview'⟩ =>
    rw [hview, hview']
    exact ⟨⟨_, hhas, hhas'⟩, .error _ _⟩
  | some (some t), ⟨hhas, view, hview, htext⟩, ⟨hhas', view', hview', htext'⟩ =>
    rw [hview, hview']
    exact ⟨⟨_, hhas, hhas'⟩, .ok (congrArg some (htext.trans htext'.symm))⟩

/-- Redeclared, the order of items has the same view. -/
theorem Schema.orders_views_agree :
    Orders.declaredContent.encode = Orders.redeclaredContent.encode ∧
    ∃ view, Orders.redeclared.foreignKeyView ⟨⟨0⟩, 0⟩ = .ok (some view) ∧
      view.text = (Orders.view [⟨⟨1⟩, 1⟩, ⟨⟨1⟩, 2⟩] "T.A, T.B").text := by
  have hdistinguishes : ∀ n, Orders.declared.associationName ⟨0⟩ = .ok n →
      Orders.declaredContent.Distinguishes n := by
    intro n hn
    cases hn
    exact Orders.distinguishes
  have hset : Orders.declared.conceptual.associationSet ⟨⟨0⟩, 0⟩ = .ok _ := rfl
  have hset' : Orders.redeclared.conceptual.associationSet ⟨⟨0⟩, 0⟩ = .ok _ := rfl
  obtain ⟨-, hagree⟩ := Orders.built.foreignKeyViews_agree Orders.built_redeclared
    Orders.content_eq Orders.content_eq_redeclared Orders.fits Orders.fits_redeclared
    Orders.encode_eq hset hset' rfl hdistinguishes
  obtain ⟨view, hview, hsame⟩ := hagree.exists_ok Orders.view_eq
  cases view with
  | none => cases hsame
  | some view => exact ⟨Orders.encode_eq, view, hview, (Option.some.inj hsame).symm⟩

namespace Orders

/-- Two relationships of one name, of which a foreign key encodes the first. -/
def namesakes (current past : AssociationId) : Schema :=
  schema ("Year", "Number") ("ItemOrder", straight) ("ItemOrder", []) current past

/-- What two sets of namesakes say does not change when their relationships are exchanged, but
foreign keys make the view of the one set or of the other. -/
theorem namesakes_differ :
    (namesakes ⟨0⟩ ⟨1⟩).Built ∧ (namesakes ⟨1⟩ ⟨0⟩).Built ∧
    ∃ k k', (namesakes ⟨0⟩ ⟨1⟩).content ⟨0⟩ = .ok (some k) ∧
      (namesakes ⟨1⟩ ⟨0⟩).content ⟨0⟩ = .ok (some k') ∧ k.encode = k'.encode ∧
      (namesakes ⟨0⟩ ⟨1⟩).extentName (.associationSet ⟨⟨0⟩, 0⟩) = .ok "Shop.Current" ∧
      (namesakes ⟨1⟩ ⟨0⟩).extentName (.associationSet ⟨⟨0⟩, 0⟩) = .ok "Shop.Current" ∧
      (namesakes ⟨0⟩ ⟨1⟩).hasForeignKeyView ⟨⟨0⟩, 0⟩ = .ok true ∧
      (namesakes ⟨1⟩ ⟨0⟩).hasForeignKeyView ⟨⟨0⟩, 0⟩ = .ok false := by
  let tied := told "ItemOrder" [("A", "Year"), ("B", "Number")]
  let loose := told "ItemOrder" []
  let both := content ("Year", "Number") ("ItemOrder", "ItemOrder")
  have hsame : (both [loose, tied]).Same (both [tied, loose]) :=
    same (rearranged_iff.2 ⟨[loose, tied],
      .cons (told_same (.refl _)) (.cons (told_same (.refl _)) .nil), .swap tied loose []⟩)
  refine ⟨?_, ?_, both [loose, tied], both [tied, loose], by cbv, by cbv, hsame.encode_eq, rfl, rfl,
    rfl, rfl⟩
  · exact ⟨declarations ("Year", "Number") ("ItemOrder", straight) ("ItemOrder", []) ⟨0⟩ ⟨1⟩,
      issued .nothing (.association ⟨1⟩), by cbv⟩
  · exact ⟨declarations ("Year", "Number") ("ItemOrder", straight) ("ItemOrder", []) ⟨1⟩ ⟨0⟩,
      issued .nothing (.association ⟨1⟩), by cbv⟩

/-- Orders whose two key fields have one name. -/
def doubled (pairs : List ForeignKeyField) : Schema :=
  schema ("Id", "Id") ("ItemOrder", pairs) ("Return", []) ⟨0⟩ ⟨1⟩

/-- What is said of key fields of one name does not change when their sources are exchanged, but the
text of the view does. -/
theorem doubled_differ :
    (doubled straight).Built ∧ (doubled crossed).Built ∧
    ∃ k k', (doubled straight).content ⟨0⟩ = .ok (some k) ∧
      (doubled crossed).content ⟨0⟩ = .ok (some k') ∧ k.encode = k'.encode ∧
      (doubled straight).foreignKeyView ⟨⟨0⟩, 0⟩ =
        .ok (some (view [⟨⟨1⟩, 1⟩, ⟨⟨1⟩, 2⟩] "T.A, T.B")) ∧
      (doubled crossed).foreignKeyView ⟨⟨0⟩, 0⟩ =
        .ok (some (view [⟨⟨1⟩, 2⟩, ⟨⟨1⟩, 1⟩] "T.B, T.A")) := by
  let both (pairs : List (String × String)) :=
    content ("Id", "Id") ("ItemOrder", "Return") [told "Return" [], told "ItemOrder" pairs]
  have hsame : (both [("A", "Id"), ("B", "Id")]).Same (both [("B", "Id"), ("A", "Id")]) :=
    same (.cons (told_same (.refl _)) (.cons (told_same (.swap _ _ _)) .zero))
  refine ⟨?_, ?_, both [("A", "Id"), ("B", "Id")], both [("B", "Id"), ("A", "Id")], by cbv, by cbv,
    hsame.encode_eq, by cbv, by cbv⟩
  · exact ⟨declarations ("Id", "Id") ("ItemOrder", straight) ("Return", []) ⟨0⟩ ⟨1⟩,
      issued .nothing (.association ⟨1⟩), by cbv⟩
  · exact ⟨declarations ("Id", "Id") ("ItemOrder", crossed) ("Return", []) ⟨0⟩ ⟨1⟩,
      issued .nothing (.association ⟨1⟩), by cbv⟩

end Orders

end QueryViews
