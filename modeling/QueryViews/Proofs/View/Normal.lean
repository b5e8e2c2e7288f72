import QueryViews.Proofs.View.Conjunction
import QueryViews.Proofs.View.Occurrences

/-!
# Conjunctions in normal form

A conjunction that was joined, and not written down by hand, has at least two operands, and none of
them is `true` or a conjunction itself. That holds at every place of an expression that was put
together by the operations on expressions (`Expr.Composed`): joining takes over the operands of
either side, which are in order already, and whatever else is put around a conjunction leaves it
alone. Nothing else is lost: every expression in normal form (`Expr.Normal`) can be put together in
this way.
-/

namespace QueryViews

namespace Expr

/-! ## The normal form -/

/-- What can be an operand of a conjunction: neither `true` nor a conjunction. -/
def IsOperand (e : Expr) : Prop := e ≠ truth ∧ ∀ es, e ≠ .conj es

/-- If it is a conjunction, it has at least two operands. -/
def NormalNode : Expr → Prop
  | .conj es => 2 ≤ es.length ∧ ∀ e ∈ es, e.IsOperand
  | _ => True

/-- Every conjunction in the expression, at whatever depth, is one of at least two operands. -/
def Normal (e : Expr) : Prop := ∀ place x, e.nodeAt? place = some x → x.NormalNode

variable {e l r : Expr} {es : List Expr}

/-- An expression is in normal form if it is at the top and all its parts are. -/
theorem normal_iff : e.Normal ↔ e.NormalNode ∧ ∀ part ∈ e.parts, part.Normal := by
  constructor
  · intro h
    refine ⟨h [] e rfl, fun part hpart place x hx => ?_⟩
    obtain ⟨i, hi⟩ := List.mem_iff_getElem?.1 hpart
    exact h (i :: place) x (Option.bind_eq_some_iff.2 ⟨part, hi, hx⟩)
  · rintro ⟨hnode, hparts⟩ (_ | ⟨i, place⟩) x hx
    · cases hx
      exact hnode
    · obtain ⟨part, hi, hx⟩ := Option.bind_eq_some_iff.1 hx
      exact hparts part (List.mem_of_getElem? hi) place x hx

/-- A conjunction is in normal form if it has at least two operands, each of which is in normal form
and can be one. -/
theorem normal_conj_iff :
    (conj es).Normal ↔ 2 ≤ es.length ∧ ∀ e ∈ es, e.IsOperand ∧ e.Normal := by
  rw [normal_iff, NormalNode, parts, and_assoc, ← forall₂_and]

/-- An operand is the only operand of itself. -/
theorem operands_of_isOperand (h : e.IsOperand) : e.operands = [e] := by
  cases e with
  | conj es => exact absurd rfl (h.2 es)
  | _ => rfl

theorem isTrue_of_isOperand (h : e.IsOperand) : e.isTrue = false :=
  e.eq_truth_or.resolve_left h.1

/-! ## Joining -/

theorem normal_truth : truth.Normal := normal_iff.2 ⟨trivial, nofun⟩

/-- What an expression in normal form contributes to a conjunction. -/
theorem Normal.operands (h : e.Normal) (hne : e ≠ truth) :
    1 ≤ e.operands.length ∧ ∀ x ∈ e.operands, x.IsOperand ∧ x.Normal := by
  by_cases hconj : ∃ es, e = .conj es
  · obtain ⟨es, rfl⟩ := hconj
    obtain ⟨htwo, hes⟩ := normal_conj_iff.1 h
    exact ⟨Nat.le_of_succ_le htwo, hes⟩
  · have hoperand : e.IsOperand := ⟨hne, fun es heq => hconj ⟨es, heq⟩⟩
    rw [operands_of_isOperand hoperand]
    exact ⟨Nat.le_refl 1, List.forall_mem_singleton.2 ⟨hoperand, h⟩⟩

/-- The conjunction of normal forms is one. -/
theorem Normal.and (hl : l.Normal) (hr : r.Normal) : (l.and r).Normal := by
  rcases l.eq_truth_or with rfl | hltrue
  · exact hr
  rcases r.eq_truth_or with rfl | hrtrue
  · rw [and_truth]
    exact hl
  obtain ⟨hlone, hlall⟩ := hl.operands fun h => by simp [h, truth, isTrue] at hltrue
  obtain ⟨hrone, hrall⟩ := hr.operands fun h => by simp [h, truth, isTrue] at hrtrue
  rw [and_eq_conj hltrue hrtrue, normal_conj_iff, List.length_append]
  exact ⟨Nat.add_le_add hlone hrone, List.forall_mem_append.2 ⟨hlall, hrall⟩⟩

/-- The conjunction of a list of normal forms is one. -/
theorem normal_andAll (h : ∀ e ∈ es, e.Normal) : (andAll es).Normal := by
  induction es with
  | nil => exact normal_truth
  | cons e es ih =>
    rw [andAll_cons]
    exact (h e List.mem_cons_self).and (ih fun e he => h e (List.mem_cons_of_mem _ he))

/-- Operands that are all in order make the conjunction of just these. -/
theorem andAll_eq_conj (htwo : 2 ≤ es.length) (h : ∀ e ∈ es, e.IsOperand) :
    andAll es = .conj es := by
  induction es with
  | nil => cases htwo
  | cons e rest ih =>
    obtain ⟨he, hrest⟩ := List.forall_mem_cons.1 h
    rw [andAll_cons]
    -- the last two operands meet directly, the others a conjunction that is there already
    match rest with
    | [] => exact absurd htwo (Nat.not_succ_le_self 1)
    | [f] =>
      have hf := hrest f (List.mem_singleton_self f)
      calc e.and (andAll [f])
          = e.and f := congrArg e.and ((andAll_cons f []).trans (and_truth f))
        _ = .conj (e.operands ++ f.operands) :=
            and_eq_conj (isTrue_of_isOperand he) (isTrue_of_isOperand hf)
        _ = .conj [e, f] := by
            rw [operands_of_isOperand he, operands_of_isOperand hf, List.singleton_append]
    | f :: g :: rest =>
      rw [ih (Nat.le_add_left 2 _) hrest, and_eq_conj (isTrue_of_isOperand he) rfl,
        operands_of_isOperand he]
      rfl

/-! ## Composed expressions -/

/-- Put together by the operations on expressions, without a conjunction that was written down. -/
inductive Composed : Expr → Prop
  | field (id : FieldId) : Composed (.field id)
  | isNull (negated : Bool) {e : Expr} (he : Composed e) : Composed (.isNull negated e)
  | isOf (only : Bool) (type : ModelId) : Composed (.isOf only type)
  | record {es : List Expr} (hes : ∀ e ∈ es, Composed e) : Composed (.record es)
  | ref (set : EntitySetId) {key : List Expr} (hkey : ∀ e ∈ key, Composed e) :
    Composed (.ref set key)
  | relationship (a : AssociationId) {ends : List Expr} (hends : ∀ e ∈ ends, Composed e) :
    Composed (.relationship a ends)
  | constant (value : Constant) : Composed (.constant value)
  | and {l r : Expr} (hl : Composed l) (hr : Composed r) : Composed (l.and r)
  | andAll {es : List Expr} (hes : ∀ e ∈ es, Composed e) : Composed (andAll es)

/-- What was put together is in normal form. -/
theorem Composed.normal (h : e.Composed) : e.Normal := by
  induction h with
  | field | isOf | constant => exact normal_iff.2 ⟨trivial, nofun⟩
  | isNull negated he ih => exact normal_iff.2 ⟨trivial, List.forall_mem_singleton.2 ih⟩
  | record hes ih => exact normal_iff.2 ⟨trivial, ih⟩
  | ref set hkey ih => exact normal_iff.2 ⟨trivial, ih⟩
  | relationship a hends ih => exact normal_iff.2 ⟨trivial, ih⟩
  | and hl hr ihl ihr => exact ihl.and ihr
  | andAll hes ih => exact normal_andAll ih

/-- An expression in normal form can be put together: each conjunction from its own operands. -/
theorem Normal.composed (h : e.Normal) : e.Composed := by
  induction e using Expr.induction with
  | node e ih =>
    obtain ⟨hnode, hparts⟩ := normal_iff.1 h
    have hcomposed : ∀ part ∈ e.parts, part.Composed := fun part hpart =>
      ih part hpart (hparts part hpart)
    cases e with
    | conj es =>
      rw [← andAll_eq_conj hnode.1 hnode.2]
      exact .andAll hcomposed
    | field id => exact .field id
    | isNull negated e => exact .isNull negated (hcomposed e (List.mem_singleton_self e))
    | isOf only type => exact .isOf only type
    | record es => exact .record hcomposed
    | ref set key => exact .ref set hcomposed
    | relationship a ends => exact .relationship a hcomposed
    | constant value => exact .constant value

end Expr

/-- A scan that was narrowed by one condition after the other, all of them composed. -/
inductive Query.Composed : Query → Prop
  | scan (source : Extent) {returning : Expr} (h : returning.Composed) :
    Composed (.scan source returning)
  | addFilter {q : Query} {filter : Expr} (hq : Composed q) (hfilter : filter.Composed) :
    Composed (q.addFilter filter)

/-- **Normal form.** The expressions that are put together without writing a conjunction down are
those in which every conjunction, at whatever depth, has at least two operands and none of these is
`true` or a conjunction. The queries that are made of them by narrowing a scan are those whose
filter, and what they return, is of this form. -/
theorem Query.composed_iff_normal :
    (∀ e : Expr, e.Composed ↔ e.Normal) ∧
    ∀ q : Query, q.Composed ↔ q.filter.Normal ∧ q.returning.Normal := by
  refine ⟨fun e => ⟨Expr.Composed.normal, Expr.Normal.composed⟩, fun q => ⟨fun h => ?_, ?_⟩⟩
  · induction h with
    | scan source h => exact ⟨Expr.normal_truth, h.normal⟩
    | addFilter hq hfilter ih => exact ⟨ih.1.and hfilter.normal, ih.2⟩
  · rintro ⟨hfilter, hreturning⟩
    -- one condition is enough: the filter of a scan is `true`
    exact .addFilter (.scan q.source hreturning.composed) hfilter.composed

end QueryViews
