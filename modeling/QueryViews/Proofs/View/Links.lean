import QueryViews.Proofs.Schema.Links
import QueryViews.Proofs.View.Text

/-!
# When a view has a text

The text of a query names everything that the query refers to, so it takes that every id in it
resolves, and no more (`Query.exists_text_iff`). In the view of a foreign key all ids are checked
except the fields that the foreign key reads. So an association set whose foreign key reads a field
that is not there has no view and no error either (`Schema.Built.foreignKeyView_fault_iff`).
-/

namespace QueryViews

variable {s : Schema}

namespace Expr

mutual

/-- What an expression refers to. -/
def links : Expr → List Link
  | .conj es => linksAll es
  | .field f => [.field f]
  | .isNull _ e => e.links
  | .isOf _ type => [.model type]
  | .record es => linksAll es
  | .ref set key => .extent (.entitySet set) :: linksAll key
  | .relationship a es => .association a :: linksAll es
  | .constant _ => []

/-- What several expressions refer to. -/
def linksAll : List Expr → List Link
  | [] => []
  | e :: es => e.links ++ linksAll es

end

mutual

theorem exists_text_iff : ∀ e : Expr, (∃ t, e.text s = .ok t) ↔ ∀ r ∈ e.links, r.Resolves s
  | .conj es => by
    simp only [text, exists_bind_eq_ok_iff, exists_pure_eq_ok, and_true, exists_texts_iff es,
      links]
  | .field f => by
    simp only [text, exists_bind_eq_ok_iff, exists_pure_eq_ok, and_true, links,
      List.forall_mem_singleton, Link.Resolves]
  | .isNull negated e => by
    simp only [text, exists_bind_eq_ok_iff, exists_pure_eq_ok, and_true, exists_text_iff e,
      links]
  | .isOf only type => by
    simp only [text, exists_bind_eq_ok_iff, exists_pure_eq_ok, and_true, links,
      List.forall_mem_singleton, Link.Resolves]
  | .record es => by
    simp only [text, exists_bind_eq_ok_iff, exists_pure_eq_ok, and_true, exists_texts_iff es,
      links]
  | .ref set key => by
    simp only [text, exists_bind_eq_ok_iff, exists_pure_eq_ok, and_true, exists_and_right,
      exists_texts_iff key, links, List.forall_mem_cons, Link.Resolves]
  | .relationship a es => by
    simp only [text, exists_bind_eq_ok_iff, exists_pure_eq_ok, and_true, exists_and_right,
      exists_texts_iff es, links, List.forall_mem_cons, Link.Resolves]
  | .constant value => by simp [text, links]

theorem exists_texts_iff : ∀ es : List Expr,
    (∃ ts, texts s es = .ok ts) ↔ ∀ r ∈ linksAll es, r.Resolves s
  | [] => by simp [texts, linksAll]
  | e :: es => by
    simp only [texts, exists_bind_eq_ok_iff, exists_pure_eq_ok, and_true, exists_and_right,
      exists_text_iff e, exists_texts_iff es, linksAll, List.forall_mem_append]

end

/-- Something is true of all links of a list if it is of those of each expression. -/
theorem forall_mem_linksAll {P : Link → Prop} {es : List Expr} :
    (∀ r ∈ linksAll es, P r) ↔ ∀ e ∈ es, ∀ r ∈ e.links, P r := by
  induction es with
  | nil => simp [linksAll]
  | cons e es ih => rw [linksAll, List.forall_mem_append, List.forall_mem_cons, ih]

/-- A filter refers to what its conditions refer to. -/
theorem links_joined (es : List Expr) : (joined es).links = linksAll es := by
  match es with
  | [] => rfl
  | [e] => simp [joined, linksAll]
  | _ :: _ :: _ => rfl

/-- What always holds refers to nothing. -/
theorem links_of_isTrue {e : Expr} (h : e.isTrue = true) : e.links = [] := by
  unfold isTrue at h
  split at h
  · rfl
  · cases h

end Expr

/-- What a query refers to. -/
def Query.links (q : Query) : List Link :=
  q.returning.links ++ .extent q.source :: q.filter.links

/-- **A query has a text exactly if all that it refers to is there.** -/
theorem Query.exists_text_iff (q : Query) :
    (∃ t, q.text s = .ok t) ↔ ∀ r ∈ q.links, r.Resolves s := by
  have hsource : (∃ n, s.extentName q.source = .ok n) ↔
      (Link.extent q.source).Resolves s := .rfl
  by_cases htrue : q.filter.isTrue = true
  · simp only [text, if_pos htrue, exists_bind_eq_ok_iff, exists_pure_eq_ok, and_true,
      exists_and_right, Expr.exists_text_iff, hsource, links, List.forall_mem_append,
      List.forall_mem_singleton, Expr.links_of_isTrue htrue]
  · simp only [text, if_neg htrue, exists_bind_eq_ok_iff, exists_pure_eq_ok, and_true,
      exists_and_right, Expr.exists_text_iff, hsource, links, List.forall_mem_append,
      List.forall_mem_cons]

/-! ## The view of a foreign key -/

namespace Encoded

variable {r : Encoded} {restricted : Bool}

/-- What the query of a foreign key refers to. -/
theorem forall_links_iff {P : Link → Prop} (hprincipal : r.fk.principal < 2)
    (hdependent : r.fk.dependent < 2) (hapart : r.fk.principal ≠ r.fk.dependent) :
    (∀ x ∈ (r.query restricted).links, P x) ↔
      (∀ f ∈ r.sources, P (.field f)) ∧ (∀ f ∈ r.ownKey, P (.field f)) ∧
      P (.extent (.entitySet r.principalSet)) ∧ P (.extent (.entitySet r.dependentSet)) ∧
      P (.association r.association) ∧ (restricted = true → P (.model r.dependent.model)) := by
  have hfields (fields : List FieldId) :
      (∀ x ∈ Expr.linksAll (fields.map .field), P x) ↔ ∀ f ∈ fields, P (.field f) := by
    simp [Expr.forall_mem_linksAll, Expr.links]
  have hends : (∀ x ∈ Expr.linksAll ((List.range 2).map r.endRef), P x) ↔
      (P (.extent (.entitySet r.principalSet)) ∧ ∀ f ∈ r.sources, P (.field f)) ∧
        P (.extent (.entitySet r.dependentSet)) ∧ ∀ f ∈ r.ownKey, P (.field f) := by
    have hprincipalRef : (∀ x ∈ (r.endRef r.fk.principal).links, P x) ↔
        P (.extent (.entitySet r.principalSet)) ∧ ∀ f ∈ r.sources, P (.field f) := by
      rw [endRef, if_neg hapart, Expr.links, List.forall_mem_cons, hfields]
    have hdependentRef : (∀ x ∈ (r.endRef r.fk.dependent).links, P x) ↔
        P (.extent (.entitySet r.dependentSet)) ∧ ∀ f ∈ r.ownKey, P (.field f) := by
      rw [endRef, if_pos rfl, Expr.links, List.forall_mem_cons, hfields]
    rw [Expr.forall_mem_linksAll, List.forall_mem_map, ← hprincipalRef, ← hdependentRef]
    constructor
    · intro h
      exact ⟨h _ (List.mem_range.2 hprincipal), h _ (List.mem_range.2 hdependent)⟩
    · rintro ⟨hp, hd⟩ index hindex
      have hlt := List.mem_range.1 hindex
      obtain rfl | rfl : index = r.fk.principal ∨ index = r.fk.dependent := by omega
      · exact hp
      · exact hd
  -- the tests refer to the type and to the sources, which the ends refer to anyway
  have htests : (∀ x ∈ Expr.linksAll (r.typeTest restricted ++ r.nullTests), P x) ↔
      (restricted = true → P (.model r.dependent.model)) ∧
        (r.principal.multiplicity.isOptional = true → ∀ f ∈ r.sources, P (.field f)) := by
    rw [typeTest, nullTests]
    cases restricted <;> cases r.principal.multiplicity.isOptional <;>
      simp [Expr.forall_mem_linksAll, Expr.links]
  rw [query, Query.links, Query.filter_addFilters simple_tests, Expr.links_joined,
    Query.returning_addFilters, Query.source_addFilters, Query.scan, Expr.links]
  simp only [List.cons_append, List.forall_mem_cons, List.forall_mem_append, hends, htests]
  tauto

end Encoded

namespace Schema

variable {set : AssociationSet} {a : Association}

theorem lift_ok_bind {ε α β : Type} (a : α) (f : α → Except (Failure ε) β) :
    ((liftM (.ok a : Except Fault α) : Except (Failure ε) α) >>= f) = f a := rfl

/-- What the query of a foreign key refers to is there if its sources are: the rest is checked. -/
theorem Encodes.exists_text_iff (hs : s.Built) {id : AssociationSetId} {r : Encoded}
    {restricted : Bool} (hr : s.Encodes set a r) (hset : s.conceptual.associationSet id = .ok set)
    (ha : s.conceptual.association set.association = .ok a) :
    (∃ t, (r.query restricted).text s = .ok t) ↔
      ∀ pair ∈ r.fk.fields, (Link.field pair.source).Resolves s := by
  have hlines := hr.linesUp hs ha
  rw [Query.exists_text_iff, Encoded.forall_links_iff
    (lt_two_of_get?_eq_some hr.principal) (lt_two_of_get?_eq_some hr.dependent) hlines.apart]
  have hsources : (∀ f ∈ r.sources, (Link.field f).Resolves s) ↔
      ∀ pair ∈ r.fk.fields, (Link.field pair.source).Resolves s := by
    simp only [Encoded.sources, hlines.mem_sourceFields_iff]
    constructor
    · exact fun h pair hpair => h _ ⟨pair, hpair, rfl⟩
    · rintro h f ⟨pair, hpair, rfl⟩
      exact h pair hpair
  rw [hsources]
  refine and_iff_left ⟨fun f hf => (hs.exists_root_of_mem_key hr.ownKey hf).2,
    hs.resolves (.bound hset hr.principalSet), hs.resolves (.bound hset hr.dependentSet), ?_,
    fun _ => hs.resolves (.endType ha hr.dependent)⟩
  rw [hr.association]
  exact ⟨a, ha⟩

/-- An abstract relationship has no view. -/
theorem foreignKeyView_of_isAbstract {id : AssociationSetId} {fk : ForeignKey} {name : String}
    (hset : s.relationshipOf id = .ok (set, a)) (hfk : a.foreignKey? = some fk)
    (habstract : a.isAbstract = true) (hname : s.extentName (.associationSet id) = .ok name) :
    s.foreignKeyView id = .error (.error (.viewNotGenerated name)) := by
  simp only [foreignKeyView, hset, lift_ok_bind, hfk, if_pos habstract, hname]
  rfl

/-- A rival keeps the view from being made. -/
theorem foreignKeyView_of_rival {id : AssociationSetId} {fk : ForeignKey}
    {other : AssociationSet} {bound : EntitySetId} {dependentSet : EntitySet}
    (hset : s.relationshipOf id = .ok (set, a)) (hfk : a.foreignKey? = some fk)
    (habstract : a.isAbstract = false) (hrival : s.rival? id set fk = .ok (some other))
    (hbound : set.ends.get? fk.dependent = some bound)
    (hdependentSet : s.conceptual.entitySet bound = .ok dependentSet) :
    s.foreignKeyView id = .error (.error (rivalry set other a dependentSet)) := by
  simp only [foreignKeyView, hset, lift_ok_bind, hfk, if_neg (Bool.eq_false_iff.1 habstract),
    hrival, hbound, found_some, hdependentSet]
  rfl

/-- A view that is made faults exactly if its query has no text. -/
theorem foreignKeyView_of_query {id : AssociationSetId} {fk : ForeignKey} {q : Query}
    (hset : s.relationshipOf id = .ok (set, a)) (hfk : a.foreignKey? = some fk)
    (habstract : a.isAbstract = false) (hrival : s.rival? id set fk = .ok none)
    (hq : s.foreignKeyQuery set a fk = .ok q) :
    (∃ f, s.foreignKeyView id = .error (.fault f)) ↔ ¬ ∃ t, q.text s = .ok t := by
  simp only [foreignKeyView, hset, lift_ok_bind, hfk, if_neg (Bool.eq_false_iff.1 habstract),
    hrival, hq, View.make]
  cases q.text s with
  | ok t =>
    constructor
    · rintro ⟨f, heq⟩
      cases heq
    · intro h
      exact absurd ⟨t, rfl⟩ h
  | error f =>
    constructor
    · rintro _ ⟨t, heq⟩
      cases heq
    · intro _
      exact ⟨f, rfl⟩

/-- **When a foreign key view cannot be made.** An association set has a view, or none, or an error
to report, unless its foreign key reads a field that is not there. -/
theorem Built.foreignKeyView_fault_iff (hs : s.Built) {id : AssociationSetId}
    (hset : s.relationshipOf id = .ok (set, a)) :
    (∃ f, s.foreignKeyView id = .error (.fault f)) ↔ ∃ fk, a.foreignKey? = some fk ∧
      a.isAbstract = false ∧ s.rival? id set fk = .ok none ∧
      ∃ pair ∈ fk.fields, ¬ (Link.field pair.source).Resolves s := by
  obtain ⟨hset', ha⟩ := relationshipOf_eq_ok_iff.1 hset
  obtain ⟨owner, howner, -⟩ := Conceptual.associationSet_eq_ok_iff.1 hset'
  cases hfk : a.foreignKey? with
  -- only where the query is made and printed can a name be missing
  | none => simp [foreignKeyView_of_none hset hfk]
  | some fk =>
    obtain ⟨r, rfl, hr⟩ := exists_encodes hs hset' ha hfk
    obtain ⟨rival, hrival⟩ : ∃ rival, s.rival? id set r.fk = .ok rival :=
      (exists_rival howner).imp fun _ h => h.1
    cases habstract : a.isAbstract with
    | true =>
      have hname : s.extentName (.associationSet id) = .ok s!"{owner.name}.{set.name}" :=
        bind_eq_ok_iff.2 ⟨owner, howner, bind_eq_ok_iff.2 ⟨set, hset', rfl⟩⟩
      simp [foreignKeyView_of_isAbstract hset hfk habstract hname]
    | false =>
      cases rival with
      | some other =>
        obtain ⟨dependentSet, hdependentSet⟩ :=
          hs.verified.exists_entitySet hset' hr.dependentSet
        simp [foreignKeyView_of_rival hset hfk habstract hrival hr.dependentSet hdependentSet,
          hrival]
      | none =>
        obtain ⟨element, helement, hholds⟩ :=
          hs.verified.holds_end hset' ha hr.dependentSet hr.dependent
        have hq := hr.foreignKeyQuery_eq helement
          (Conceptual.isStrictSubtype_of_isAssignable hholds)
        rw [foreignKeyView_of_query hset hfk habstract hrival hq, hr.exists_text_iff hs hset' ha]
        simp [hrival]

end Schema

end QueryViews
