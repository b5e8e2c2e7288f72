import QueryViews.Proofs.OrderedMap
import QueryViews.Proofs.Schema.Keys
import QueryViews.Proofs.View.Evaluation
import QueryViews.View.ForeignKey

/-!
# Views of foreign keys mean what the foreign keys say

Read over the rows of the dependent entity set, the view of a foreign key gives one relationship
instance for each row that takes part in the relationship, and nothing else
(`Schema.Built.foreignKeyView_run`). A row takes part if it is of the dependent type and, where
the principal is optional, its foreign key is set. The instance refers to the dependent by the key
of the row, and to the principal by what the row holds for each field of the principal's key, in
the order of that key.

The query is a scan narrowed by conditions (`Encoded.query`), the test of the type in front. A row
of another type may lack the fields of the foreign key; they are not read there.
-/

namespace QueryViews

/-! ## What a foreign key says -/

/-- A relationship that the rows of an entity set encode: its foreign key, the two ends, the entity
sets that are bound to them, and the keys of the two types. -/
structure Encoded where
  association : AssociationId
  fk : ForeignKey
  principal : AssociationEnd
  dependent : AssociationEnd
  principalSet : EntitySetId
  dependentSet : EntitySetId
  principalKey : List FieldId
  ownKey : List FieldId

/-- What an association set encodes. -/
structure Schema.Encodes (s : Schema) (set : AssociationSet) (a : Association) (r : Encoded) :
    Prop where
  association : r.association = set.association
  fk : a.foreignKey? = some r.fk
  principal : a.ends.get? r.fk.principal = some r.principal
  dependent : a.ends.get? r.fk.dependent = some r.dependent
  principalSet : set.ends.get? r.fk.principal = some r.principalSet
  dependentSet : set.ends.get? r.fk.dependent = some r.dependentSet
  principalKey : s.conceptual.keyFields r.principal.model = .ok r.principalKey
  ownKey : s.conceptual.keyFields r.dependent.model = .ok r.ownKey

/-- A row of an entity set: of a type that the set holds, with a value for every field of it. -/
structure Schema.HasRow (s : Schema) (set : EntitySetId) (row : Row) : Prop where
  typed : ∃ element, s.elementType set = .ok element ∧
    s.conceptual.isAssignable row.type element = .ok true
  complete : ∀ fields, s.conceptual.allFields row.type = .ok fields →
    ∀ f ∈ fields, (row.value? f).isSome

/-- An association set encodes one thing. -/
theorem Schema.Encodes.unique {s : Schema} {set : AssociationSet} {a : Association}
    {r r' : Encoded} (h : s.Encodes set a r) (h' : s.Encodes set a r') : r = r' := by
  obtain ⟨association, fk, principal, dependent, principalSet, dependentSet, principalKey,
    ownKey⟩ := r
  obtain ⟨association', fk', principal', dependent', principalSet', dependentSet', principalKey',
    ownKey'⟩ := r'
  cases h.association.trans h'.association.symm
  cases h.fk.symm.trans h'.fk
  cases h.principal.symm.trans h'.principal
  cases h.dependent.symm.trans h'.dependent
  cases h.principalSet.symm.trans h'.principalSet
  cases h.dependentSet.symm.trans h'.dependentSet
  cases h.principalKey.symm.trans h'.principalKey
  cases h.ownKey.symm.trans h'.ownKey
  rfl

namespace Encoded

/-- The row is of the dependent type, and its foreign key is set if it need not be. -/
def TakesPart (r : Encoded) (c : Conceptual) (row : Row) : Prop :=
  c.isAssignable row.type r.dependent.model = .ok true ∧
    (r.principal.multiplicity = .zeroOrOne → ∀ pair ∈ r.fk.fields, row.has pair.source)

instance (r : Encoded) (c : Conceptual) : DecidablePred (r.TakesPart c) :=
  fun _ => inferInstanceAs (Decidable (_ ∧ _))

/-- The ends that the row encodes. The one of the principal refers to the entity whose key is what
the row holds in the sources of the foreign key, field by field in the order of that key; the one
of the dependent refers to the row itself, by the key of its type. -/
structure EndsOf (r : Encoded) (c : Conceptual) (row : Row) (ends : List Value) : Prop where
  length : ends.length = 2
  principal : ∃ key, ends[r.fk.principal]? = some (.ref r.principalSet key) ∧
    List.Forall₂ (fun target v => ∃ pair ∈ r.fk.fields, pair.target = target ∧
      row.value? pair.source = some v) r.principalKey key
  dependent : ∃ key, ends[r.fk.dependent]? = some (.ref r.dependentSet key) ∧
    c.keyFields row.type = .ok r.ownKey ∧
    List.Forall₂ (fun f v => row.value? f = some v) r.ownKey key

/-- The instance that the row encodes. -/
def Instance (r : Encoded) (c : Conceptual) (row : Row) (v : Value) : Prop :=
  ∃ ends, v = .relationship r.association ends ∧ r.EndsOf c row ends

/-- A row encodes one instance. -/
theorem Instance.unique {r : Encoded} {c : Conceptual}
    (hlines : r.fk.LinesUp c r.dependent.model r.principalKey) {row : Row} {v v' : Value}
    (h : r.Instance c row v) (h' : r.Instance c row v') : v = v' := by
  obtain ⟨ends, rfl, hlength, ⟨key, hkey, hsources⟩, own, hown, -, hfields⟩ := h
  obtain ⟨ends', rfl, hlength', ⟨key', hkey', hsources'⟩, own', hown', -, hfields'⟩ := h'
  have hkeys : key = key' := by
    refine Relator.RightUnique.forall₂ (fun target v v' hv hv' => ?_) hsources hsources'
    obtain ⟨pair, hpair, rfl, hv⟩ := hv
    obtain ⟨pair', hpair', htarget, hv'⟩ := hv'
    cases List.inj_on_of_nodup_map (hlines.targets.nodup_iff.2 hlines.nodup) hpair' hpair htarget
    exact Option.some.inj (hv.symm.trans hv')
  have howns : own = own' :=
    Relator.RightUnique.forall₂ (fun f v v' hv hv' => Option.some.inj (hv.symm.trans hv'))
      hfields hfields'
  -- the two ends are all that there is
  have hp : r.fk.principal < 2 := hlength ▸ (List.getElem?_eq_some_iff.1 hkey).1
  have hd : r.fk.dependent < 2 := hlength ▸ (List.getElem?_eq_some_iff.1 hown).1
  refine congrArg _ (List.ext_getElem? fun index => ?_)
  by_cases hip : index = r.fk.principal
  · rw [hip, hkey, hkey', hkeys]
  · by_cases hid : index = r.fk.dependent
    · rw [hid, hown, hown', howns]
    · have hindex : 2 ≤ index := by
        have := hlines.apart
        omega
      rw [List.getElem?_eq_none (hlength.trans_le hindex),
        List.getElem?_eq_none (hlength'.trans_le hindex)]

/-! ## The query -/

/-- The sources of the foreign key, in the order of the principal's key. -/
def sources (r : Encoded) : List FieldId := Schema.sourceFields r.principalKey r.fk

/-- The reference at an end: the dependent by its own key, the principal by the foreign key. -/
def endRef (r : Encoded) (index : Nat) : Expr :=
  if index = r.fk.dependent then .ref r.dependentSet (r.ownKey.map .field)
  else .ref r.principalSet (r.sources.map .field)

/-- What the reference at an end is on a row. -/
def endValue (r : Encoded) (row : Row) (index : Nat) : Value :=
  if index = r.fk.dependent then .ref r.dependentSet (r.ownKey.map row.get)
  else .ref r.principalSet (r.sources.map row.get)

/-- Whether the row is of the dependent type, where not every row of the set is. -/
def typeTest (r : Encoded) (restricted : Bool) : List Expr :=
  if restricted then [.isOf false r.dependent.model] else []

/-- Whether the foreign key is set, where it need not be. -/
def nullTests (r : Encoded) : List Expr :=
  if r.principal.multiplicity.isOptional then r.sources.map fun f => .isNull true (.field f)
  else []

/-- A scan of the dependent set, narrowed by the two tests. -/
def query (r : Encoded) (restricted : Bool) : Query :=
  (r.typeTest restricted ++ r.nullTests).foldl Query.addFilter
    (.scan (.entitySet r.dependentSet)
      (.relationship r.association ((List.range 2).map r.endRef)))

end Encoded

namespace Schema

variable {s : Schema} {set : AssociationSet} {a : Association} {fk : ForeignKey} {r : Encoded}
  {restricted : Bool}

/-- The query of a foreign key is that of what it encodes. -/
theorem exists_encoded {q : Query} (h : s.foreignKeyQuery set a fk = .ok q)
    (hfk : a.foreignKey? = some fk) : ∃ r element restricted, s.Encodes set a r ∧
      s.elementType r.dependentSet = .ok element ∧
      s.conceptual.isStrictSubtype r.dependent.model element = .ok restricted ∧
      q = r.query restricted := by
  simp only [foreignKeyQuery, bind_eq_ok_iff, found_eq_ok_iff] at h
  obtain ⟨dependent, hd, principal, hp, dependentSet, hds, principalSet, hps, key, hkey, ownKey,
    hown, element, helement, restricted, hrestricted, hq⟩ := h
  refine ⟨⟨set.association, fk, principal, dependent, principalSet, dependentSet, key, ownKey⟩,
    element, restricted, ⟨rfl, hfk, hp, hd, hps, hds, hkey, hown⟩, helement, hrestricted, ?_⟩
  rw [Encoded.query, Encoded.typeTest, Encoded.nullTests, List.foldl_append]
  split at hq <;> rename_i hoptional <;> cases hq
  · rw [if_pos hoptional, List.foldl_map]
    cases restricted <;> rfl
  · rw [if_neg hoptional]
    cases restricted <;> rfl

/-- Conversely, what a set encodes has a query. -/
theorem Encodes.foreignKeyQuery_eq (hr : s.Encodes set a r) {element : ModelId}
    (helement : s.elementType r.dependentSet = .ok element)
    (hrestricted : s.conceptual.isStrictSubtype r.dependent.model element = .ok restricted) :
    s.foreignKeyQuery set a r.fk = .ok (r.query restricted) := by
  simp only [foreignKeyQuery, bind_eq_ok_iff, found_eq_ok_iff]
  refine ⟨_, hr.dependent, _, hr.principal, _, hr.dependentSet, _, hr.principalSet, _,
    hr.principalKey, _, hr.ownKey, _, helement, _, hrestricted, ?_⟩
  rw [Encoded.query, Encoded.typeTest, Encoded.nullTests, List.foldl_append, hr.association]
  split
  · rw [List.foldl_map]
    cases restricted <;> rfl
  · cases restricted <;> rfl

/-! ## The ids of a text -/

/-- If a list of expressions can be printed, so can each of them. -/
theorem exists_text_of_mem {es : List Expr} {texts : List String}
    (h : Expr.texts s es = .ok texts) {e : Expr} (he : e ∈ es) : ∃ t, e.text s = .ok t := by
  induction es generalizing texts with
  | nil => cases he
  | cons e' es ih =>
    obtain ⟨t, ht, h⟩ := bind_eq_ok_iff.1 h
    obtain ⟨ts, hts, -⟩ := bind_eq_ok_iff.1 h
    rcases List.mem_cons.1 he with rfl | he
    · exact ⟨t, ht⟩
    · exact ih hts he

/-- The fields that a reference is made of are declared, if it has a text. -/
theorem exists_field_of_text {bound : EntitySetId} {fields : List FieldId} {t : String}
    (h : (Expr.ref bound (fields.map .field)).text s = .ok t) :
    ∀ f ∈ fields, ∃ declared, s.conceptual.field f = .ok declared := by
  intro f hf
  obtain ⟨name, -, h⟩ := bind_eq_ok_iff.1 h
  obtain ⟨texts, htexts, -⟩ := bind_eq_ok_iff.1 h
  obtain ⟨t, ht⟩ := exists_text_of_mem htexts (List.mem_map_of_mem hf)
  obtain ⟨declared, hdeclared, -⟩ := bind_eq_ok_iff.1 ht
  exact ⟨declared, hdeclared⟩

/-- Every field that the query of a foreign key reads is declared, if the query has a text. -/
theorem Encodes.exists_field (hr : s.Encodes set a r)
    (hlines : r.fk.LinesUp s.conceptual r.dependent.model r.principalKey) {t : String}
    (h : (r.query restricted).text s = .ok t) :
    (∀ f ∈ r.sources, ∃ declared, s.conceptual.field f = .ok declared) ∧
      ∀ f ∈ r.ownKey, ∃ declared, s.conceptual.field f = .ok declared := by
  obtain ⟨returning, hreturning, -⟩ := bind_eq_ok_iff.1 h
  rw [Encoded.query, Query.returning_addFilters] at hreturning
  obtain ⟨a', -, hends⟩ := bind_eq_ok_iff.1 hreturning
  obtain ⟨texts, htexts, -⟩ := bind_eq_ok_iff.1 hends
  have hend (index : Nat) (hindex : index < 2) : ∃ t, (r.endRef index).text s = .ok t :=
    exists_text_of_mem htexts (List.mem_map_of_mem (List.mem_range.2 hindex))
  obtain ⟨tp, hp⟩ := hend r.fk.principal (lt_two_of_get?_eq_some hr.principal)
  obtain ⟨td, hd⟩ := hend r.fk.dependent (lt_two_of_get?_eq_some hr.dependent)
  rw [Encoded.endRef, if_neg hlines.apart] at hp
  rw [Encoded.endRef, if_pos rfl] at hd
  exact ⟨exists_field_of_text hp, exists_field_of_text hd⟩

/-- A view that has a query has its text. -/
theorem make_query_eq_ok_iff {key : ViewKey} {q : Query} {origin : Origin} {v : View} :
    View.make s key (.query q) origin = .ok v ↔
      ∃ t, q.text s = .ok t ∧ v = ⟨key, .query q, t, origin⟩ :=
  bind_eq_ok_iff.trans (exists_congr fun _ => and_congr_right fun _ =>
    ⟨fun h => (Except.ok.inj h).symm, fun h => h ▸ rfl⟩)

/-! ## The sources of the principal's key -/

/-- Each key field has a source, in the order of the key. -/
theorem forall₂_sourceFields {key : List FieldId}
    (h : key ⊆ fk.fields.map ForeignKeyField.target) :
    List.Forall₂ (fun target source => ⟨source, target⟩ ∈ fk.fields) key
      (sourceFields key fk) := by
  induction key with
  | nil => exact .nil
  | cons target key ih =>
    obtain ⟨htarget, hkey⟩ := List.cons_subset.1 h
    obtain ⟨pair, hpair, heq⟩ := List.mem_map.1 htarget
    obtain ⟨found, hfound⟩ : ∃ found, fk.fields.find? (·.target = target) = some found :=
      Option.isSome_iff_exists.1 (List.find?_isSome.2 ⟨pair, hpair, decide_eq_true heq⟩)
    have hsource : sourceFields (target :: key) fk = found.source :: sourceFields key fk := by
      rw [sourceFields, List.filterMap_cons, hfound]
      rfl
    rw [hsource]
    have hmem := List.mem_of_find?_eq_some hfound
    have htest := List.find?_some hfound
    obtain rfl : found.target = target := of_decide_eq_true htest
    exact .cons hmem (ih hkey)

end Schema

/-- The sources in the order of the key are those of the pairs. -/
theorem ForeignKey.LinesUp.mem_sourceFields_iff {c : Conceptual} {fk : ForeignKey}
    {dependent : ModelId} {key : List FieldId} (h : fk.LinesUp c dependent key) {f : FieldId} :
    f ∈ Schema.sourceFields key fk ↔ ∃ pair ∈ fk.fields, pair.source = f := by
  rw [Schema.sourceFields, List.mem_filterMap]
  constructor
  · rintro ⟨target, -, hfind⟩
    obtain ⟨pair, hpair, hsource⟩ := Option.map_eq_some_iff.1 hfind
    exact ⟨pair, List.mem_of_find?_eq_some hpair, hsource⟩
  · rintro ⟨pair, hpair, rfl⟩
    have hnodup := h.targets.nodup_iff.2 h.nodup
    refine ⟨pair.target, h.targets.subset (List.mem_map_of_mem hpair), ?_⟩
    rw [find?_eq_some_of_nodup hnodup hpair]
    rfl

namespace Schema

variable {s : Schema} {set : AssociationSet} {a : Association} {r : Encoded} {restricted : Bool}
  {bound : EntitySetId} {element : ModelId} {row : Row}

/-! ## Reading a row -/

/-- A row of a set has a value for every field of its type. -/
theorem HasRow.exists_value (h : s.HasRow bound row) {f : FieldId}
    (hf : s.conceptual.isAssignable row.type f.model = .ok true)
    (hdeclared : ∃ declared, s.conceptual.field f = .ok declared) :
    ∃ v, row.value? f = some v := by
  obtain ⟨chain, hchain, -⟩ := Conceptual.isAssignable_eq_true_iff.1 hf
  obtain ⟨fields, hfields⟩ := Conceptual.exists_allFields hchain
  exact Option.isSome_iff_exists.1
    (h.complete fields hfields f ((Conceptual.mem_allFields_iff hfields).2 ⟨hf, hdeclared⟩))

/-- A row of the dependent type has a value for every source of the foreign key. -/
theorem HasRow.exists_source (h : s.HasRow bound row)
    (hlines : r.fk.LinesUp s.conceptual r.dependent.model r.principalKey)
    (hsources : ∀ f ∈ r.sources, ∃ declared, s.conceptual.field f = .ok declared)
    (hrow : s.conceptual.isAssignable row.type r.dependent.model = .ok true) :
    ∀ f ∈ r.sources, ∃ v, row.value? f = some v := by
  intro f hf
  obtain ⟨pair, hpair, rfl⟩ := hlines.mem_sourceFields_iff.1 hf
  exact h.exists_value (Conceptual.isAssignable_trans hrow (hlines.sources pair hpair))
    (hsources _ hf)

/-- The type test tells the rows of the dependent type. Where it is left out, the set holds no
others. -/
theorem holdsAll_typeTest
    (hrow : s.conceptual.isAssignable row.type element = .ok true)
    (hholds : s.conceptual.isAssignable r.dependent.model element = .ok true)
    (hrestricted : s.conceptual.isStrictSubtype r.dependent.model element = .ok restricted) :
    ∃ b, s.conceptual.isAssignable row.type r.dependent.model = .ok b ∧
      Expr.holdsAll s.conceptual row (r.typeTest restricted) = .ok (.ofBool b) := by
  cases restricted with
  | true =>
    obtain ⟨chain, hchain, -⟩ := Conceptual.isAssignable_eq_true_iff.1 hrow
    have hb : s.conceptual.isAssignable row.type r.dependent.model =
        .ok (chain.contains r.dependent.model) := bind_eq_ok_iff.2 ⟨chain, hchain, rfl⟩
    refine ⟨_, hb, ?_⟩
    rw [Encoded.typeTest, if_pos rfl, Expr.holdsAll_cons, Expr.holdsAll, andThen_yes, Expr.holds,
      Expr.eval, hb]
    exact Truth.truth_value _
  | false =>
    refine ⟨true, ?_, rfl⟩
    rw [Conceptual.isStrictSubtype] at hrestricted
    split at hrestricted
    · rename_i heq
      exact heq ▸ hrow
    · cases hholds.symm.trans hrestricted

/-- The null tests tell the rows whose foreign key is set, if it need not be. -/
theorem holdsAll_nullTests (hvalue : ∀ f ∈ r.sources, ∃ v, row.value? f = some v) :
    Expr.holdsAll s.conceptual row r.nullTests =
      .ok (.ofBool (!r.principal.multiplicity.isOptional || r.sources.all row.has)) := by
  rw [Encoded.nullTests]
  cases r.principal.multiplicity.isOptional with
  | false => rfl
  | true =>
    refine Expr.holdsAll_map fun f hf => ?_
    obtain ⟨v, hv⟩ := hvalue f hf
    exact Expr.holds_isNotNull hv

/-- The null tests pass if the foreign key is set or has to be. -/
theorem nullTests_pass_iff
    (hlines : r.fk.LinesUp s.conceptual r.dependent.model r.principalKey) :
    (!r.principal.multiplicity.isOptional || r.sources.all row.has) = true ↔
      (r.principal.multiplicity = .zeroOrOne → ∀ pair ∈ r.fk.fields, row.has pair.source) := by
  have hall : r.sources.all row.has = true ↔ ∀ pair ∈ r.fk.fields, row.has pair.source := by
    rw [List.all_eq_true]
    constructor
    · exact fun h pair hpair => h _ (hlines.mem_sourceFields_iff.2 ⟨pair, hpair, rfl⟩)
    · intro h f hf
      obtain ⟨pair, hpair, rfl⟩ := hlines.mem_sourceFields_iff.1 hf
      exact h pair hpair
  rw [Bool.or_eq_true, hall]
  cases r.principal.multiplicity <;> simp [Multiplicity.isOptional]

/-- The filter is true on the rows that take part, and has a truth value on every row. -/
theorem holds_filter
    (hlines : r.fk.LinesUp s.conceptual r.dependent.model r.principalKey)
    (hholds : s.conceptual.isAssignable r.dependent.model element = .ok true)
    (hrestricted : s.conceptual.isStrictSubtype r.dependent.model element = .ok restricted)
    (hsources : ∀ f ∈ r.sources, ∃ declared, s.conceptual.field f = .ok declared)
    (hrow : s.HasRow r.dependentSet row)
    (helement : s.elementType r.dependentSet = .ok element) :
    ∃ t, (r.query restricted).filter.holds s.conceptual row = .ok t ∧
      (t = .yes ↔ r.TakesPart s.conceptual row) := by
  obtain ⟨element', helement', htyped⟩ := hrow.typed
  cases helement.symm.trans helement'
  obtain ⟨b, hb, htype⟩ := holdsAll_typeTest htyped hholds hrestricted
  have hfilter : (r.query restricted).filter.holds s.conceptual row =
      andThen (.ok (.ofBool b)) (Expr.holdsAll s.conceptual row r.nullTests) := by
    rw [Encoded.query, Query.holds_addFilters, Query.scan, Expr.holds_truth, yes_andThen,
      Expr.holdsAll_append, htype]
  rw [hfilter, Encoded.TakesPart, hb]
  cases b with
  | false => exact ⟨.no, rfl, ⟨nofun, nofun⟩⟩
  | true =>
    rw [holdsAll_nullTests (hrow.exists_source hlines hsources hb)]
    refine ⟨_, yes_andThen _, ?_⟩
    rw [Truth.ofBool_eq_yes_iff, nullTests_pass_iff hlines]
    exact (and_iff_right rfl).symm

/-- What is returned at an end is the reference that belongs there. -/
theorem eval_endRef (hsources : ∀ f ∈ r.sources, ∃ v, row.value? f = some v)
    (hown : ∀ f ∈ r.ownKey, ∃ v, row.value? f = some v) (index : Nat) :
    (r.endRef index).eval s.conceptual row = .ok (r.endValue row index) := by
  by_cases hindex : index = r.fk.dependent
  · rw [Encoded.endRef, Encoded.endValue, if_pos hindex, if_pos hindex, Expr.eval_ref hown]
  · rw [Encoded.endRef, Encoded.endValue, if_neg hindex, if_neg hindex, Expr.eval_ref hsources]

/-- What is returned of a row that takes part is the instance that the row encodes. -/
theorem Encodes.eval_returning (hr : s.Encodes set a r)
    (hlines : r.fk.LinesUp s.conceptual r.dependent.model r.principalKey)
    (hrow : s.conceptual.isAssignable row.type r.dependent.model = .ok true)
    (hsources : ∀ f ∈ r.sources, ∃ v, row.value? f = some v)
    (hown : ∀ f ∈ r.ownKey, ∃ v, row.value? f = some v) :
    ∃ v, (r.query restricted).returning.eval s.conceptual row = .ok v ∧
      r.Instance s.conceptual row v := by
  have hend {index : Nat} (hindex : index < 2) :
      ((List.range 2).map (r.endValue row))[index]? = some (r.endValue row index) := by
    rw [List.getElem?_map, List.getElem?_range hindex, Option.map_some]
  refine ⟨.relationship r.association ((List.range 2).map (r.endValue row)), ?_, _, rfl, rfl,
    ⟨r.sources.map row.get, ?_, ?_⟩, r.ownKey.map row.get, ?_, ?_, ?_⟩
  · rw [Encoded.query, Query.returning_addFilters, Query.scan, Expr.eval,
      Expr.evals_map fun index _ => eval_endRef hsources hown index]
    rfl
  · rw [hend (lt_two_of_get?_eq_some hr.principal), Encoded.endValue, if_neg hlines.apart]
  · rw [List.forall₂_map_right_iff]
    refine (forall₂_sourceFields hlines.targets.symm.subset).imp fun target source hpair => ?_
    have hsource : source ∈ r.sources := hlines.mem_sourceFields_iff.2 ⟨_, hpair, rfl⟩
    exact ⟨_, hpair, rfl, Row.value?_eq_get (hsources source hsource)⟩
  · rw [hend (lt_two_of_get?_eq_some hr.dependent), Encoded.endValue, if_pos rfl]
  · rw [Conceptual.keyFields_eq_of_isAssignable hrow, hr.ownKey]
  · rw [List.forall₂_map_right_iff, List.forall₂_same]
    exact fun f hf => Row.value?_eq_get (hown f hf)

/-! ## The view -/

/-- The foreign key of a schema that was built lines up. -/
theorem Encodes.linesUp (hs : s.Built) (hr : s.Encodes set a r)
    (ha : s.conceptual.association set.association = .ok a) :
    r.fk.LinesUp s.conceptual r.dependent.model r.principalKey := by
  obtain ⟨principal, dependent, key, hprincipal, hdependent, hkey, hlines⟩ :=
    hs.verified.linesUp (mem_of_found ha)
      (Association.mem_of_foreignKey? hr.fk)
  cases hr.principal.symm.trans hprincipal
  cases hr.dependent.symm.trans hdependent
  cases hr.principalKey.symm.trans hkey
  exact hlines

/-- The dependent end is the other one than the principal end. -/
theorem Encodes.dependent_eq (hs : s.Built) (ha : s.conceptual.association set.association = .ok a)
    {r : Encoded} (hr : s.Encodes set a r) : r.fk.dependent = 1 - r.fk.principal := by
  have hp := lt_two_of_get?_eq_some hr.principal
  have hd := lt_two_of_get?_eq_some hr.dependent
  have hne := (hr.linesUp hs ha).apart
  omega

/-- A set of a relationship that is encoded by a foreign key encodes it: its ends, the sets that are
bound to them and the keys are all there. -/
theorem exists_encodes (hs : s.Built) {id : AssociationSetId}
    (hset : s.conceptual.associationSet id = .ok set)
    (ha : s.conceptual.association set.association = .ok a) {fk : ForeignKey}
    (hfk : a.foreignKey? = some fk) : ∃ r, r.fk = fk ∧ s.Encodes set a r := by
  obtain ⟨principal, dependent, key, hp, hd, hkey, -⟩ := hs.verified.linesUp
    (mem_of_found ha) (Association.mem_of_foreignKey? hfk)
  have hbound {index : Nat} {e : AssociationEnd} (he : a.ends.get? index = some e) :
      ∃ bound, set.ends.get? index = some bound :=
    ⟨_, List.getElem?_eq_getElem (lt_two_of_get?_eq_some he)⟩
  obtain ⟨principalSet, hps⟩ := hbound hp
  obtain ⟨dependentSet, hds⟩ := hbound hd
  obtain ⟨element, -, hholds⟩ := hs.verified.holds_end hset ha hds hd
  obtain ⟨chain, hchain, -⟩ := Conceptual.isAssignable_eq_true_iff.1 hholds
  obtain ⟨ownKey, hown⟩ := Conceptual.exists_keyFields hchain
  exact ⟨⟨set.association, fk, principal, dependent, principalSet, dependentSet, key, ownKey⟩, rfl,
    rfl, hfk, hp, hd, hps, hds, hkey, hown⟩

/-- The relationship of an association set is that which it names. -/
theorem relationshipOf_eq_ok_iff {id : AssociationSetId} :
    s.relationshipOf id = .ok (set, a) ↔ s.conceptual.associationSet id = .ok set ∧
      s.conceptual.association set.association = .ok a := by
  constructor
  · intro h
    obtain ⟨set', hset, hrest⟩ := bind_eq_ok_iff.1 h
    obtain ⟨a', ha, heq⟩ := bind_eq_ok_iff.1 hrest
    cases heq
    exact ⟨hset, ha⟩
  · rintro ⟨hset, ha⟩
    exact bind_eq_ok_iff.2 ⟨set, hset, bind_eq_ok_iff.2 ⟨a, ha, rfl⟩⟩

/-- An association set has a view by a foreign key exactly if its relationship is encoded by one. -/
theorem hasForeignKeyView_eq {id : AssociationSetId} (h : s.relationshipOf id = .ok (set, a)) :
    s.hasForeignKeyView id = .ok a.foreignKey?.isSome :=
  bind_eq_ok_iff.2 ⟨_, h, rfl⟩

/-- A rival is another set of the container, with the same relationship and the same set at the
dependent end. -/
theorem exists_rival {id : AssociationSetId} {fk : ForeignKey} {owner : Container}
    (howner : s.conceptual.container id.container = .ok owner) :
    ∃ rival, s.rival? id set fk = .ok rival ∧ (rival.isSome ↔
      ∃ j other, owner.associationSets[j]? = some other ∧ j ≠ id.index ∧
        other.association = set.association ∧
        other.ends.get? fk.dependent = set.ends.get? fk.dependent) := by
  refine ⟨_, bind_eq_ok_iff.2 ⟨_, bind_eq_ok_iff.2 ⟨owner, howner, rfl⟩, rfl⟩, ?_⟩
  rw [Option.isSome_map, List.find?_isSome]
  simp only [List.mem_map, Bool.and_eq_true, decide_eq_true_eq]
  constructor
  · rintro ⟨_, ⟨⟨other, j⟩, hj, rfl⟩, ⟨hne, heq⟩, hends⟩
    exact ⟨j, other, List.mk_mem_zipIdx_iff_getElem?.1 hj, fun hindex => hne (hindex ▸ rfl), heq,
      hends⟩
  · rintro ⟨j, other, hj, hne, heq, hends⟩
    exact ⟨_, ⟨(other, j), List.mk_mem_zipIdx_iff_getElem?.2 hj, rfl⟩,
      ⟨fun hid => hne (congrArg AssociationSetId.index hid), heq⟩, hends⟩

/-- An association set whose relationship no foreign key encodes has no view. -/
theorem foreignKeyView_of_none {id : AssociationSetId} (hset : s.relationshipOf id = .ok (set, a))
    (hfk : a.foreignKey? = none) : s.foreignKeyView id = .ok none := by
  refine bind_eq_ok_iff.2 ⟨_, lift_eq_ok_iff.2 hset, ?_⟩
  simp only [hfk]
  rfl

/-- When an association set has a view: its relationship is not abstract, no other set describes
the same instances, and the query has a text. -/
theorem foreignKeyView_eq_ok_iff {id : AssociationSetId} {fk : ForeignKey} {view : Option View}
    (hset : s.relationshipOf id = .ok (set, a)) (hfk : a.foreignKey? = some fk) :
    s.foreignKeyView id = .ok view ↔ a.isAbstract = false ∧ s.rival? id set fk = .ok none ∧
      ∃ q t, s.foreignKeyQuery set a fk = .ok q ∧ q.text s = .ok t ∧
        view = some ⟨.extent (.associationSet id), .query q, t, .foreignKey⟩ := by
  constructor
  · intro h
    obtain ⟨_, hset', h⟩ := bind_eq_ok_iff.1 h
    cases hset.symm.trans (lift_eq_ok_iff.1 hset')
    simp only [hfk] at h
    -- an abstract relationship and a rival end in errors, so there is a query to be put into text
    split at h
    · obtain ⟨_, -, h⟩ := bind_eq_ok_iff.1 h
      cases h
    · rename_i habstract
      obtain ⟨rival, hrival, h⟩ := bind_eq_ok_iff.1 h
      cases rival with
      | some other =>
        obtain ⟨_, -, h⟩ := bind_eq_ok_iff.1 h
        obtain ⟨_, -, h⟩ := bind_eq_ok_iff.1 h
        cases h
      | none =>
        obtain ⟨q, hq, h⟩ := bind_eq_ok_iff.1 h
        obtain ⟨v, hv, h⟩ := bind_eq_ok_iff.1 h
        obtain ⟨t, ht, rfl⟩ := make_query_eq_ok_iff.1 (lift_eq_ok_iff.1 hv)
        cases h
        exact ⟨Bool.eq_false_iff.2 habstract, lift_eq_ok_iff.1 hrival, q, t,
          lift_eq_ok_iff.1 hq, ht, rfl⟩
  · rintro ⟨habstract, hrival, q, t, hq, ht, rfl⟩
    refine bind_eq_ok_iff.2 ⟨_, lift_eq_ok_iff.2 hset, ?_⟩
    simp only [hfk]
    rw [if_neg (Bool.eq_false_iff.1 habstract)]
    refine bind_eq_ok_iff.2 ⟨none, lift_eq_ok_iff.2 hrival, bind_eq_ok_iff.2 ⟨q,
      lift_eq_ok_iff.2 hq, bind_eq_ok_iff.2 ⟨_, lift_eq_ok_iff.2 ?_, rfl⟩⟩⟩
    exact make_query_eq_ok_iff.2 ⟨t, ht, rfl⟩

/-- A view of a foreign key has the query of what it encodes. -/
theorem exists_query_of_foreignKeyView {id : AssociationSetId} {view : View}
    (h : s.foreignKeyView id = .ok (some view)) : ∃ set a fk q,
      s.relationshipOf id = .ok (set, a) ∧ a.foreignKey? = some fk ∧
      s.foreignKeyQuery set a fk = .ok q ∧ view.body = .query q ∧ ∃ t, q.text s = .ok t := by
  obtain ⟨⟨set, a⟩, hset, hview⟩ := bind_eq_ok_iff.1 h
  cases hfk : a.foreignKey? with
  | none =>
    simp only [hfk] at hview
    cases hview
  | some fk =>
    obtain ⟨-, -, q, t, hq, ht, hr⟩ := (foreignKeyView_eq_ok_iff (lift_eq_ok_iff.1 hset) hfk).1 h
    cases hr
    exact ⟨set, a, fk, q, lift_eq_ok_iff.1 hset, hfk, hq, rfl, t, ht⟩

end Schema

/-- **The view of a foreign key means what the foreign key says.** Read over rows of the dependent
entity set, it gives one instance for each row that takes part in the relationship, in the order of
the rows, and nothing for the others. The targets of the foreign key are the principal's key in
some order, so each key field has one source, whose value on the row is the one referred to. -/
theorem Schema.Built.foreignKeyView_run {s : Schema} (hs : s.Built) {id : AssociationSetId}
    {view : View} (h : s.foreignKeyView id = .ok (some view)) :
    ∃ set a r q, s.relationshipOf id = .ok (set, a) ∧ s.Encodes set a r ∧
      r.fk.LinesUp s.conceptual r.dependent.model r.principalKey ∧
      view.body = .query q ∧ q.source = .entitySet r.dependentSet ∧
      ∀ rows : List Row, (∀ row ∈ rows, s.HasRow r.dependentSet row) →
        ∃ instances, q.run s.conceptual rows = .ok instances ∧
          List.Forall₂ (r.Instance s.conceptual) (rows.filter (r.TakesPart s.conceptual))
            instances := by
  obtain ⟨set, a, fk, q, hset, hfk, hq, hbody, text, htext⟩ := exists_query_of_foreignKeyView h
  obtain ⟨r, element, restricted, hr, helement, hrestricted, rfl⟩ := exists_encoded hq hfk
  obtain ⟨set', hset', ha⟩ := bind_eq_ok_iff.1 hset
  obtain ⟨a', ha, heq⟩ := bind_eq_ok_iff.1 ha
  cases heq
  have hlines := hr.linesUp hs ha
  obtain ⟨hsources, hown⟩ := hr.exists_field hlines htext
  -- the set can hold what stands at the dependent end, so a type test keeps the rows of that type
  have hholds : s.conceptual.isAssignable r.dependent.model element = .ok true := by
    obtain ⟨element', helement', hholds⟩ :=
      hs.verified.holds_end hset' ha hr.dependentSet hr.dependent
    cases helement.symm.trans helement'
    exact hholds
  refine ⟨set, a, r, _, hset, hr, hlines, hbody, Query.source_addFilters _ _, fun rows hrows => ?_⟩
  refine Query.run_of_forall
    (fun row hrow => holds_filter hlines hholds hrestricted hsources (hrows row hrow) helement)
    fun row hrow htakes => hr.eval_returning hlines htakes.1
      ((hrows row hrow).exists_source hlines hsources htakes.1) fun f hf => ?_
  exact (hrows row hrow).exists_value
    (Conceptual.isAssignable_trans htakes.1 (hs.keyFields_assignable hr.ownKey f hf)) (hown f hf)

/-! ## A warehouse -/

namespace Warehouse

/-- Orders have a key of two fields. Of the things that are stored, items may belong to an order,
which they name with the two fields of its key the other way round. -/
def declarations : List Declaration := [
  .entity "Order", .field .key ⟨0⟩ "Year" .int32, .field .key ⟨0⟩ "Number" .int32,
  .entity "Thing", .field .key ⟨1⟩ "Id" .int32,
  .derivedEntity "Item" ⟨1⟩,
  .field .nullable ⟨2⟩ "OrderNumber" .int32, .field .nullable ⟨2⟩ "OrderYear" .int32,
  .association "ItemOrder" (⟨2⟩, .many) (⟨0⟩, .zeroOrOne),
  .foreignKey ⟨0⟩ 1 [⟨⟨⟨2⟩, 0⟩, ⟨⟨0⟩, 1⟩⟩, ⟨⟨⟨2⟩, 1⟩, ⟨⟨0⟩, 0⟩⟩],
  .container "Warehouse", .entitySet ⟨0⟩ "Orders" ⟨0⟩, .entitySet ⟨0⟩ "Things" ⟨1⟩,
  .associationSet ⟨0⟩ "ItemOrders" ⟨0⟩ ⟨⟨⟨0⟩, 1⟩, ⟨⟨0⟩, 0⟩⟩]

/-- The ids that are issued on the way. -/
def issued : List Issued := [
  .model ⟨0⟩, .field ⟨⟨0⟩, 0⟩, .field ⟨⟨0⟩, 1⟩, .model ⟨1⟩, .field ⟨⟨1⟩, 0⟩, .model ⟨2⟩,
  .field ⟨⟨2⟩, 0⟩, .field ⟨⟨2⟩, 1⟩, .association ⟨0⟩, .nothing, .container ⟨0⟩,
  .entitySet ⟨⟨0⟩, 0⟩, .entitySet ⟨⟨0⟩, 1⟩, .associationSet ⟨⟨0⟩, 0⟩]

/-- The schema that they make. -/
def schema : Schema where
  conceptual := {
    models := [
      ⟨"Order", [⟨"Year", .scalar .int32, false, false⟩, ⟨"Number", .scalar .int32, false, false⟩],
        .entity ⟨none, false, [⟨⟨0⟩, 0⟩, ⟨⟨0⟩, 1⟩]⟩⟩,
      ⟨"Thing", [⟨"Id", .scalar .int32, false, false⟩], .entity ⟨none, false, [⟨⟨1⟩, 0⟩]⟩⟩,
      ⟨"Item", [⟨"OrderNumber", .scalar .int32, true, false⟩,
        ⟨"OrderYear", .scalar .int32, true, false⟩], .entity ⟨some ⟨1⟩, false, []⟩⟩]
    associations := [⟨"ItemOrder", ⟨⟨"Item", ⟨2⟩, .many⟩, ⟨"Order", ⟨0⟩, .zeroOrOne⟩⟩,
      [⟨1, 0, [⟨⟨⟨2⟩, 0⟩, ⟨⟨0⟩, 1⟩⟩, ⟨⟨⟨2⟩, 1⟩, ⟨⟨0⟩, 0⟩⟩]⟩], true, false⟩]
    containers := [⟨"Warehouse", [⟨"Orders", ⟨0⟩⟩, ⟨"Things", ⟨1⟩⟩],
      [⟨"ItemOrders", ⟨0⟩, ⟨⟨⟨0⟩, 1⟩, ⟨⟨0⟩, 0⟩⟩⟩]⟩] }
  store := ⟨[], []⟩
  mapping := ⟨[]⟩

theorem built : schema.Built := ⟨declarations, issued, rfl⟩

/-- The set that binds items among the things to orders. -/
def itemOrders : AssociationSet := ⟨"ItemOrders", ⟨0⟩, ⟨⟨0⟩, 1⟩, ⟨⟨0⟩, 0⟩⟩

/-- The relationship of items to orders. -/
def itemOrder : Association where
  name := "ItemOrder"
  ends := ⟨⟨"Item", ⟨2⟩, .many⟩, ⟨"Order", ⟨0⟩, .zeroOrOne⟩⟩
  constraints := [⟨1, 0, [⟨⟨⟨2⟩, 0⟩, ⟨⟨0⟩, 1⟩⟩, ⟨⟨⟨2⟩, 1⟩, ⟨⟨0⟩, 0⟩⟩]⟩]
  isForeignKey := true
  isAbstract := false

/-- What the rows of things encode of it. -/
def encoded : Encoded where
  association := ⟨0⟩
  fk := ⟨1, 0, [⟨⟨⟨2⟩, 0⟩, ⟨⟨0⟩, 1⟩⟩, ⟨⟨⟨2⟩, 1⟩, ⟨⟨0⟩, 0⟩⟩]⟩
  principal := ⟨"Order", ⟨0⟩, .zeroOrOne⟩
  dependent := ⟨"Item", ⟨2⟩, .many⟩
  principalSet := ⟨⟨0⟩, 0⟩
  dependentSet := ⟨⟨0⟩, 1⟩
  principalKey := [⟨⟨0⟩, 0⟩, ⟨⟨0⟩, 1⟩]
  ownKey := [⟨⟨1⟩, 0⟩]

/-- So it is encoded. -/
theorem encodes : schema.Encodes itemOrders itemOrder encoded :=
  ⟨rfl, rfl, rfl, rfl, rfl, rfl, rfl, rfl⟩

/-- The view that is made of it. -/
def view : View where
  key := .extent (.associationSet ⟨⟨0⟩, 0⟩)
  body := .query ⟨.entitySet ⟨⟨0⟩, 1⟩,
    .conj [.isOf false ⟨2⟩, .isNull true (.field ⟨⟨2⟩, 1⟩), .isNull true (.field ⟨⟨2⟩, 0⟩)],
    .relationship ⟨0⟩ [.ref ⟨⟨0⟩, 1⟩ [.field ⟨⟨1⟩, 0⟩],
      .ref ⟨⟨0⟩, 0⟩ [.field ⟨⟨2⟩, 1⟩, .field ⟨⟨2⟩, 0⟩]]⟩
  text := "SELECT VALUE ItemOrder(CreateRef(Warehouse.Things, ROW(T.Id)), " ++
    "CreateRef(Warehouse.Orders, ROW(T.OrderYear, T.OrderNumber))) FROM Warehouse.Things AS T " ++
    "WHERE T IS OF (Item) AND T.OrderYear IS NOT NULL AND T.OrderNumber IS NOT NULL"
  origin := .foreignKey

set_option maxRecDepth 4000 in
theorem view_eq : schema.foreignKeyView ⟨⟨0⟩, 0⟩ = .ok (some view) := rfl

/-- A number that a row holds. -/
def number (n : Int64) : Value := .constant (.int n)

/-- A thing that is no item. -/
def thing (id : Int64) : Row :=
  ⟨⟨1⟩, fun f => [(⟨⟨1⟩, 0⟩, number id)].lookup f⟩

/-- An item, with the number and the year of its order. -/
def item (id : Int64) (orderNumber orderYear : Value) : Row :=
  ⟨⟨2⟩, fun f => [(⟨⟨1⟩, 0⟩, number id), (⟨⟨2⟩, 0⟩, orderNumber), (⟨⟨2⟩, 1⟩, orderYear)].lookup f⟩

/-- A thing, an item with half an order, and one with an order. -/
def rows : List Row :=
  [thing 1, item 2 (number 7) (.constant .null), item 3 (number 7) (number 2024)]

/-- A row of the set of things, given its fields. -/
theorem hasRow {row : Row} (fields : List FieldId)
    (htyped : schema.conceptual.isAssignable row.type ⟨1⟩ = .ok true)
    (hfields : schema.conceptual.allFields row.type = .ok fields)
    (hvalue : ∀ f ∈ fields, (row.value? f).isSome) : schema.HasRow ⟨⟨0⟩, 1⟩ row where
  typed := ⟨⟨1⟩, rfl, htyped⟩
  complete fields' h := by
    cases hfields.symm.trans h
    exact hvalue

theorem hasRow_of_mem {row : Row} (h : row ∈ rows) : schema.HasRow ⟨⟨0⟩, 1⟩ row := by
  simp only [rows, List.mem_cons, List.not_mem_nil, or_false] at h
  rcases h with rfl | rfl | rfl
  · exact hasRow [⟨⟨1⟩, 0⟩] rfl rfl (by decide)
  · exact hasRow [⟨⟨1⟩, 0⟩, ⟨⟨2⟩, 0⟩, ⟨⟨2⟩, 1⟩] rfl rfl (by decide)
  · exact hasRow [⟨⟨1⟩, 0⟩, ⟨⟨2⟩, 0⟩, ⟨⟨2⟩, 1⟩] rfl rfl (by decide)

/-- Only one of them takes part. -/
theorem filter_rows : rows.filter (encoded.TakesPart schema.conceptual) =
    [item 3 (number 7) (number 2024)] := rfl

/-- The instance is of the order whose key the item holds, with the two fields turned round. -/
theorem instance_item : encoded.Instance schema.conceptual (item 3 (number 7) (number 2024))
    (.relationship ⟨0⟩ [.ref ⟨⟨0⟩, 1⟩ [number 3], .ref ⟨⟨0⟩, 0⟩ [number 2024, number 7]]) := by
  refine ⟨_, rfl, rfl, ⟨_, rfl, .cons ?_ (.cons ?_ .nil)⟩, _, rfl, rfl, .cons rfl .nil⟩
  · exact ⟨⟨⟨⟨2⟩, 1⟩, ⟨⟨0⟩, 0⟩⟩, by decide, rfl, rfl⟩
  · exact ⟨⟨⟨⟨2⟩, 0⟩, ⟨⟨0⟩, 1⟩⟩, by decide, rfl, rfl⟩

end Warehouse

/-- Of three rows, the thing is no item and the first item has but half an order; the other item
belongs to the order that its fields name, whose key comes with the year in front. -/
theorem Warehouse.itemOrders_run : ∃ q, schema.foreignKeyView ⟨⟨0⟩, 0⟩ = .ok (some view) ∧
    view.body = .query q ∧ q.run schema.conceptual rows = .ok [.relationship ⟨0⟩
      [.ref ⟨⟨0⟩, 1⟩ [number 3], .ref ⟨⟨0⟩, 0⟩ [number 2024, number 7]]] := by
  obtain ⟨set, a, r, q, hset, hr, hlines, hbody, -, hrun⟩ := built.foreignKeyView_run view_eq
  have hset' : schema.relationshipOf ⟨⟨0⟩, 0⟩ = .ok (itemOrders, itemOrder) := rfl
  cases hset'.symm.trans hset
  cases encodes.unique hr
  obtain ⟨instances, hinstances, hmade⟩ := hrun rows fun row h => hasRow_of_mem h
  rw [filter_rows] at hmade
  cases hmade with
  | cons hv hrest =>
    cases hrest
    cases hv.unique hlines instance_item
    exact ⟨q, view_eq, hbody, hinstances⟩

end QueryViews
