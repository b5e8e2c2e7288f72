import QueryViews.Proofs.Closure.Told
import QueryViews.Proofs.View.ForeignKey
import Mathlib.Data.List.Induction

/-!
# The text of a foreign key view

A scan that is narrowed by simple conditions, one after the other, has them all in its filter: none
is `true`, one is itself, and more are one flat conjunction (`Query.filter_addFilters`). So the text
of the query is that of the scan, with the texts of the conditions behind it
(`Query.text_addFilters`).

The ids of the query of a foreign key are written as names. If these are the names that a content
has for its parts (`Schema.Reads`), then the text of the query is the one that the content gives
(`Schema.Reads.text_query`).
-/

namespace QueryViews

variable {s : Schema}

namespace Expr

/-- The conditions of a filter that simple conditions were put together to. -/
def joined : List Expr → Expr
  | [] => truth
  | [e] => e
  | es => .conj es

/-- A condition that is taken over as it stands. -/
structure Simple (e : Expr) : Prop where
  isTrue : e.isTrue = false
  operands : e.operands = [e]

/-- A filter is true if there are no conditions. -/
theorem isTrue_joined {es : List Expr} (h : ∀ e ∈ es, e.Simple) :
    (joined es).isTrue = es.isEmpty := by
  match es with
  | [] => rfl
  | [e] => exact (h e (List.mem_singleton_self _)).isTrue
  | _ :: _ :: _ => rfl

/-- One more condition is put behind those that are there. -/
theorem joined_and {es : List Expr} {e : Expr} (h : ∀ e ∈ es, e.Simple) (he : e.Simple) :
    (joined es).and e = joined (es ++ [e]) := by
  rw [Expr.and, isTrue_joined h]
  rcases es with _ | ⟨x, _ | ⟨y, rest⟩⟩
  · rfl
  · simp [joined, he.isTrue, he.operands, (h x (List.mem_singleton_self _)).operands]
  · have hflat : (joined (x :: y :: rest)).operands = x :: y :: rest := rfl
    rw [hflat, he.operands, he.isTrue]
    rfl

/-- Expressions are printed one by one. -/
theorem texts_eq_ok_iff {es : List Expr} {ts : List String} :
    Expr.texts s es = .ok ts ↔ List.Forall₂ (fun e t => e.text s = .ok t) es ts := by
  induction es generalizing ts with
  | nil =>
    rw [Expr.texts, List.forall₂_nil_left_iff]
    exact ⟨fun h => (Except.ok.inj h).symm, fun h => h ▸ rfl⟩
  | cons e es ih =>
    rw [Expr.texts, bind_eq_ok_iff, List.forall₂_cons_left_iff]
    refine exists_congr fun t => ?_
    rw [bind_eq_ok_iff]
    constructor
    · rintro ⟨ht, rest, hrest, hr⟩
      exact ⟨rest, ht, ih.1 hrest, (Except.ok.inj hr).symm⟩
    · rintro ⟨rest, ht, hrest, rfl⟩
      exact ⟨ht, rest, ih.2 hrest, rfl⟩

/-- A filter is printed as its conditions, with the word in between. -/
theorem text_joined {es : List Expr} {ts : List String} (h : Expr.texts s es = .ok ts)
    (hne : es ≠ []) : (joined es).text s = .ok (" AND ".intercalate ts) := by
  match es with
  | [] => exact absurd rfl hne
  | [e] =>
    cases texts_eq_ok_iff.1 h with
    | cons ht hrest =>
      cases hrest
      exact ht
  | e :: e' :: rest =>
    change (Expr.conj (e :: e' :: rest)).text s = _
    rw [Expr.text, h]
    rfl

/-- The text of a field that has a name. -/
theorem text_field {f : FieldId} {declared : Field} (h : s.conceptual.field f = .ok declared) :
    (Expr.field f).text s = .ok ("T." ++ declared.name) := by
  rw [Expr.text, h]
  rfl

end Expr

namespace Query

variable {source : Extent} {returning : Expr} {es : List Expr}

/-- Conditions that are added one by one are the filter. -/
theorem filter_addFilters (h : ∀ e ∈ es, e.Simple) :
    (es.foldl addFilter (scan source returning)).filter = Expr.joined es := by
  induction es using List.reverseRecOn with
  | nil => rfl
  | append_singleton es e ih =>
    have hes : ∀ e ∈ es, e.Simple := fun x hx => h x (List.mem_append_left _ hx)
    rw [List.foldl_append, List.foldl_cons, List.foldl_nil, addFilter, ih hes]
    exact Expr.joined_and hes (h e (by simp))

/-- The text of a scan that simple conditions narrow. -/
theorem text_addFilters (h : ∀ e ∈ es, e.Simple) {ts : List String}
    (hts : Expr.texts s es = .ok ts) {returned name : String}
    (hreturning : returning.text s = .ok returned) (hsource : s.extentName source = .ok name) :
    (es.foldl addFilter (scan source returning)).text s =
      let scanned := "SELECT VALUE " ++ returned ++ " FROM " ++ name ++ " AS T"
      .ok (if ts.isEmpty then scanned else scanned ++ " WHERE " ++ " AND ".intercalate ts) := by
  have hempty : ts.isEmpty = es.isEmpty := by
    cases Expr.texts_eq_ok_iff.1 hts <;> rfl
  rw [text, returning_addFilters, source_addFilters, filter_addFilters h, scan, hreturning,
    Expr.isTrue_joined h, ← hempty]
  change (s.extentName source >>= fun _ => _) = _
  rw [hsource]
  cases ts with
  | nil => rfl
  | cons t ts =>
    have hne : es ≠ [] := by
      rintro rfl
      cases hempty
    change (Except.ok _ >>= fun _ => (Expr.joined es).text s >>= _) = _
    rw [Expr.text_joined hts hne]
    rfl

end Query

namespace Encoded

variable {r : Encoded} {restricted : Bool} {test : Expr}

/-- A test is whether the row is of a type, or whether a field has a value. -/
theorem eq_of_mem_tests (h : test ∈ r.typeTest restricted ++ r.nullTests) :
    test = .isOf false r.dependent.model ∨ ∃ f, test = .isNull true (.field f) := by
  rcases List.mem_append.1 h with h | h
  · rw [typeTest] at h
    split at h
    · exact .inl (List.mem_singleton.1 h)
    · cases h
  · rw [nullTests] at h
    split at h
    · obtain ⟨f, -, rfl⟩ := List.mem_map.1 h
      exact .inr ⟨f, rfl⟩
    · cases h

/-- Both are simple conditions. -/
theorem simple_tests : ∀ test ∈ r.typeTest restricted ++ r.nullTests, test.Simple := by
  intro test h
  obtain rfl | ⟨f, rfl⟩ := eq_of_mem_tests h <;> exact ⟨rfl, rfl⟩

end Encoded

namespace Schema

/-! ## The text of a query, by name -/

/-- The parts of what is encoded go by the names that are used in the other one. -/
structure Reads (s : Schema) (container : String) (r : Encoded) (restricted : Bool)
    (e : Content.Encoded) : Prop where
  relationship : s.associationName r.association = .ok e.set.association
  place : r.fk.dependent = e.dependent
  multiplicity : r.principal.multiplicity = e.principalEnd.multiplicity
  type : s.modelName r.dependent.model = .ok e.dependentEnd.type
  principalSet : s.extentName (.entitySet r.principalSet) = .ok s!"{container}.{e.principalSet}"
  dependentSet : s.extentName (.entitySet r.dependentSet) = .ok s!"{container}.{e.dependentSet}"
  ownKey : r.ownKey.mapM s.fieldName = .ok e.ownKey
  sources : ∃ names, r.sources.mapM s.fieldName = .ok names ∧
    names.map Content.FieldName.name = e.sources
  restricted : restricted = true ↔ e.dependentEnd.type ≠ e.element

/-- A field with a name is there, and has it. -/
theorem exists_field_of_fieldName {f : FieldId} {name : Content.FieldName}
    (h : s.fieldName f = .ok name) :
    ∃ declared, s.conceptual.field f = .ok declared ∧ declared.name = name.name := by
  obtain ⟨type, -, h⟩ := bind_eq_ok_iff.1 h
  obtain ⟨declared, hdeclared, hr⟩ := bind_eq_ok_iff.1 h
  cases hr
  exact ⟨declared, hdeclared, rfl⟩

section Text

variable {fields : List FieldId} {names : List Content.FieldName}

/-- Fields are printed by their names, behind the row. -/
theorem texts_fields (h : fields.mapM s.fieldName = .ok names) :
    Expr.texts s (fields.map .field) =
      .ok ((names.map Content.FieldName.name).map ("T." ++ ·)) := by
  rw [Expr.texts_eq_ok_iff, List.map_map, List.forall₂_map_left_iff, List.forall₂_map_right_iff]
  refine (mapM_eq_ok_iff.1 h).imp fun f name hf => ?_
  obtain ⟨declared, hdeclared, hname⟩ := exists_field_of_fieldName hf
  rw [Expr.text_field hdeclared, hname]
  rfl

/-- Null tests are printed behind the fields. -/
theorem texts_nullTests (h : fields.mapM s.fieldName = .ok names) :
    Expr.texts s (fields.map fun f => .isNull true (.field f)) =
      .ok ((names.map Content.FieldName.name).map fun n => "T." ++ n ++ " IS NOT NULL") := by
  rw [Expr.texts_eq_ok_iff, List.map_map, List.forall₂_map_left_iff, List.forall₂_map_right_iff]
  refine (mapM_eq_ok_iff.1 h).imp fun f name hf => ?_
  obtain ⟨declared, hdeclared, hname⟩ := exists_field_of_fieldName hf
  rw [Expr.text, Expr.text_field hdeclared, hname]
  rfl

/-- A reference is printed with its set and its key. -/
theorem text_ref {container set : String} {bound : EntitySetId}
    (hbound : s.extentName (.entitySet bound) = .ok s!"{container}.{set}")
    (h : fields.mapM s.fieldName = .ok names) :
    (Expr.ref bound (fields.map .field)).text s =
      .ok (Content.Encoded.refText container set (names.map Content.FieldName.name)) := by
  rw [Expr.text, hbound, texts_fields h]
  rfl

end Text

namespace Reads

variable {container : String} {r : Encoded} {restricted : Bool} {e : Content.Encoded}

/-- The reference at an end is printed as the content has it. -/
theorem text_endRef (h : s.Reads container r restricted e) (place : Nat) :
    (r.endRef place).text s = .ok (e.endText container place) := by
  rw [Encoded.endRef, Content.Encoded.endText, h.place]
  split
  · exact text_ref h.dependentSet h.ownKey
  · obtain ⟨names, hnames, heq⟩ := h.sources
    rw [← heq]
    exact text_ref h.principalSet hnames

/-- The tests are printed as the content has them. -/
theorem texts_tests (h : s.Reads container r restricted e) :
    Expr.texts s (r.typeTest restricted ++ r.nullTests) = .ok e.tests := by
  refine Expr.texts_eq_ok_iff.2 (List.rel_append ?_ ?_) <;> rw [← Expr.texts_eq_ok_iff]
  · rw [Encoded.typeTest]
    by_cases hrestricted : restricted = true
    · rw [if_pos hrestricted, if_pos (h.restricted.1 hrestricted)]
      obtain ⟨m, hm, hname⟩ := modelName_eq_ok_iff.1 h.type
      rw [Expr.texts, Expr.text, hm, ← hname]
      rfl
    · rw [if_neg hrestricted, if_neg fun hne => hrestricted (h.restricted.2 hne)]
      rfl
  · rw [Encoded.nullTests, h.multiplicity]
    split
    · obtain ⟨names, hnames, heq⟩ := h.sources
      rw [← heq]
      exact texts_nullTests hnames
    · rfl

/-- The text of the query is made of the names. -/
theorem text_query (h : s.Reads container r restricted e) :
    (r.query restricted).text s = .ok (e.text container) := by
  have hends : Expr.texts s ((List.range 2).map r.endRef) =
      .ok ((List.range 2).map (e.endText container)) := by
    rw [Expr.texts_eq_ok_iff, List.forall₂_map_left_iff, List.forall₂_map_right_iff,
      List.forall₂_same]
    exact fun place _ => h.text_endRef place
  have hreturning : (Expr.relationship r.association ((List.range 2).map r.endRef)).text s =
      .ok (e.set.association ++ "(" ++
        ", ".intercalate ((List.range 2).map (e.endText container)) ++ ")") := by
    obtain ⟨a, ha, hname⟩ := associationName_eq_ok_iff.1 h.relationship
    rw [Expr.text, ha, ← hname]
    change (Expr.texts s _ >>= fun _ => _) = _
    rw [hends]
    rfl
  rw [Encoded.query, Query.text_addFilters Encoded.simple_tests h.texts_tests hreturning
    h.dependentSet]
  rfl

end Reads

end Schema

end QueryViews
