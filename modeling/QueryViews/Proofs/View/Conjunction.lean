import QueryViews.Proofs.View.Evaluation

/-!
# Conjunctions are a monoid

Joining two expressions is associative and has `true` as its unit, as trees and for all expressions:
a conjunction that was written down by hand, with any operands, is no exception. The reason is that
an expression other than `true` enters a conjunction as its operands (`Expr.operands`), and these
are concatenated. So the conjunction of a list is the product of its members
(`Expr.andAll_append`), and it makes no difference in which groups a query is given its conditions
(`Query.addFilter_groups`).

Reading a query over rows, it keeps those on which all of its conditions are true
(`Query.keeps_conjunction`).
-/

namespace QueryViews

namespace Expr

/-! ## The monoid -/

theorem truth_and (e : Expr) : truth.and e = e := rfl

/-- What always holds adds nothing behind. -/
theorem and_truth (e : Expr) : e.and truth = e := by
  rw [Expr.and]
  split
  · rename_i h
    exact (isTrue_iff.1 h).symm
  · exact if_pos rfl

/-- Neither side is `true`: both are taken over by their operands. -/
theorem and_eq_conj {l r : Expr} (hl : l.isTrue = false) (hr : r.isTrue = false) :
    l.and r = conj (l.operands ++ r.operands) := by
  rw [Expr.and, hl, hr]
  rfl

/-- A condition is the constant `true`, or it is kept. -/
theorem eq_truth_or (e : Expr) : e = truth ∨ e.isTrue = false := by
  cases h : e.isTrue with
  | true => exact .inl (isTrue_iff.1 h)
  | false => exact .inr rfl

/-- It does not matter which of two conjunctions comes first. -/
protected theorem and_assoc (l m r : Expr) : (l.and m).and r = l.and (m.and r) := by
  rcases l.eq_truth_or with rfl | hl
  · rfl
  rcases m.eq_truth_or with rfl | hm
  · rw [and_truth, truth_and]
  rcases r.eq_truth_or with rfl | hr
  · rw [and_truth, and_truth]
  -- a conjunction is not `true`, and its operands are those that it was made of
  calc (l.and m).and r
      = (conj (l.operands ++ m.operands)).and r := by rw [and_eq_conj hl hm]
    _ = conj (l.operands ++ m.operands ++ r.operands) := and_eq_conj rfl hr
    _ = conj (l.operands ++ (m.operands ++ r.operands)) := by rw [List.append_assoc]
    _ = l.and (conj (m.operands ++ r.operands)) :=
        (and_eq_conj (r := conj (m.operands ++ r.operands)) hl rfl).symm
    _ = l.and (m.and r) := by rw [and_eq_conj hm hr]

/-- Conditions added one by one are added as one. -/
theorem foldl_and (e : Expr) (es : List Expr) : es.foldl and e = e.and (es.foldl and truth) := by
  induction es generalizing e with
  | nil => exact (and_truth e).symm
  | cons f es ih =>
    rw [List.foldl_cons, List.foldl_cons, ih, ih (truth.and f), truth_and, Expr.and_assoc]

/-- What always holds can be left out. -/
theorem foldl_and_filter (e : Expr) (es : List Expr) :
    (es.filter (!·.isTrue)).foldl and e = es.foldl and e := by
  induction es generalizing e with
  | nil => rfl
  | cons f es ih =>
    rcases f.eq_truth_or with rfl | hf
    · rw [List.foldl_cons, and_truth]
      exact ih e
    · rw [List.filter_cons_of_pos (by rw [hf]; rfl), List.foldl_cons, List.foldl_cons, ih]

/-- The operands that are `true` need not be left out beforehand. -/
theorem andAll_eq_foldl (es : List Expr) : andAll es = es.foldl and truth := by
  rw [← foldl_and_filter, andAll]
  split
  · rename_i h
    rw [h]
    rfl
  · rename_i e rest h
    rw [h, List.foldl_cons, truth_and]

/-- The conjunction of a list, from its front. -/
theorem andAll_cons (e : Expr) (es : List Expr) : andAll (e :: es) = e.and (andAll es) := by
  rw [andAll_eq_foldl, andAll_eq_foldl, List.foldl_cons, truth_and, foldl_and]

/-- The conjunction of two lists is that of their conjunctions. -/
theorem andAll_append (es fs : List Expr) : andAll (es ++ fs) = (andAll es).and (andAll fs) := by
  induction es with
  | nil => rfl
  | cons e es ih => rw [List.cons_append, andAll_cons, ih, andAll_cons, Expr.and_assoc]

/-! ## Groups of conditions -/

/-- A way to join conditions, two groups at a time. -/
inductive Group
  | nothing
  | condition (e : Expr)
  | both (l r : Group)

namespace Group

/-- The conditions of a group, from left to right. -/
def conditions : Group → List Expr
  | nothing => []
  | condition e => [e]
  | both l r => l.conditions ++ r.conditions

/-- The conditions of a group, joined as it says. -/
def joined : Group → Expr
  | nothing => truth
  | condition e => e
  | both l r => l.joined.and r.joined

/-- How the conditions are grouped does not show. -/
theorem joined_eq_andAll (g : Group) : g.joined = andAll g.conditions := by
  induction g with
  | nothing => rfl
  | condition e => rw [conditions, andAll_cons]; exact (and_truth e).symm
  | both l r ihl ihr => rw [joined, conditions, andAll_append, ihl, ihr]

end Group

/-! ## What holds of a row -/

variable {c : Conceptual} {row : Row}

/-- A conjunction is true if both conditions are. -/
theorem andThen_eq_yes_iff {x y : Reading Truth} :
    andThen x y = .ok .yes ↔ x = .ok .yes ∧ y = .ok .yes := by
  rcases x with e | (_ | _ | _)
  · exact ⟨fun h => (by cases h), fun h => (by cases h.1)⟩
  · exact ⟨fun h => (by cases h), fun h => (by cases h.1)⟩
  · -- nothing makes more of what is unknown
    rcases y with e | (_ | _ | _) <;> exact ⟨fun h => (by cases h), fun h => (by cases h.1)⟩
  · rw [yes_andThen]
    exact (and_iff_right rfl).symm

/-- The conjunction of a list is read like a conjunction of its members. -/
theorem holds_andAll (es : List Expr) : (andAll es).holds c row = holdsAll c row es := by
  induction es with
  | nil => rw [holdsAll]; exact holds_truth
  | cons e es ih => rw [andAll_cons, holds_and, ih, holdsAll_cons]

/-- A conjunction of many is true if all of them are. -/
theorem holdsAll_eq_yes_iff {es : List Expr} :
    holdsAll c row es = .ok .yes ↔ ∀ e ∈ es, e.holds c row = .ok .yes := by
  induction es with
  | nil => simp [holdsAll]
  | cons e es ih => rw [holdsAll_cons, andThen_eq_yes_iff, ih, List.forall_mem_cons]

/-- Conditions each of which has a truth value have one together. -/
theorem exists_holdsAll {es : List Expr} (h : ∀ e ∈ es, ∃ t, e.holds c row = .ok t) :
    ∃ t, holdsAll c row es = .ok t := by
  induction es with
  | nil => exact ⟨.yes, by rw [holdsAll]⟩
  | cons e es ih =>
    obtain ⟨t, ht⟩ := h e List.mem_cons_self
    obtain ⟨u, hu⟩ := ih fun f hf => h f (List.mem_cons_of_mem e hf)
    exact ⟨t.and u, by rw [holdsAll_cons, ht, hu, andThen_ok]⟩

/-- The condition is true on the row: it is read, and is neither false nor null. -/
def accepts (e : Expr) (c : Conceptual) (row : Row) : Bool :=
  match e.holds c row with
  | .ok .yes => true
  | _ => false

theorem accepts_iff {e : Expr} : e.accepts c row = true ↔ e.holds c row = .ok .yes := by
  rw [accepts]
  split
  · rename_i h
    exact ⟨fun _ => h, fun _ => rfl⟩
  · rename_i h
    exact ⟨fun h => (by cases h), fun hyes => absurd hyes h⟩

end Expr

namespace Query

open QueryViews.Expr

variable {c : Conceptual} {row : Row}

/-! ## Queries -/

/-- Conditions added to a query are added to its filter, and to nothing else. -/
theorem foldl_addFilter (q : Query) (es : List Expr) :
    es.foldl addFilter q = { q with filter := es.foldl Expr.and q.filter } := by
  induction es generalizing q with
  | nil => rfl
  | cons e es ih => exact ih _

/-- The conditions that a query was given one group after the other are one conjunction. -/
theorem addFilter_groups (source : Extent) (returning : Expr) (gs : List Group) :
    (gs.map Group.joined).foldl addFilter (scan source returning) =
      ⟨source, andAll (gs.flatMap Group.conditions), returning⟩ := by
  have hgroups : andAll (gs.map Group.joined) = andAll (gs.flatMap Group.conditions) := by
    induction gs with
    | nil => rfl
    | cons g gs ih =>
      rw [List.map_cons, List.flatMap_cons, andAll_cons, andAll_append, ih, g.joined_eq_andAll]
  rw [foldl_addFilter, scan, ← andAll_eq_foldl, hgroups]

/-- A filter that is read on every row keeps those on which it is true. -/
theorem run_eq_mapM {q : Query} {rows : List Row}
    (h : ∀ row ∈ rows, ∃ t, q.filter.holds c row = .ok t) :
    q.run c rows = (rows.filter (q.filter.accepts c)).mapM fun row => q.returning.eval c row := by
  induction rows with
  | nil => rfl
  | cons row rows ih =>
    obtain ⟨t, ht⟩ := h row List.mem_cons_self
    have hrest := ih fun row' hrow' => h row' (List.mem_cons_of_mem row hrow')
    rw [run, ht, hrest]
    by_cases hyes : t = .yes
    · subst hyes
      rw [List.filter_cons_of_pos (accepts_iff.2 ht), List.mapM_cons]
      rfl
    · have hno : ¬ q.filter.accepts c row = true := fun hacc =>
        hyes (Except.ok.inj (ht.symm.trans (accepts_iff.1 hacc)))
      rw [List.filter_cons_of_neg hno]
      exact if_neg hyes

/-- A conjunction is true where all of its members are. -/
theorem accepts_andAll (es : List Expr) :
    (andAll es).accepts c row = es.all fun e => e.accepts c row := by
  rw [Bool.eq_iff_iff, accepts_iff, holds_andAll, holdsAll_eq_yes_iff, List.all_eq_true]
  exact forall₂_congr fun e _ => accepts_iff.symm

end Query

/-! ## An orchard -/

namespace Orchard

/-- Whether a fruit is ripe, and when it was picked. -/
def ripe : FieldId := ⟨⟨0⟩, 0⟩

/-- The day on which a fruit was picked. -/
def picked : FieldId := ⟨⟨0⟩, 1⟩

/-- The set of all fruits. -/
def fruits : Extent := .entitySet ⟨⟨0⟩, 0⟩

/-- A fruit that may be ripe, or not, or nobody knows, and may have been picked on a day. -/
def fruit (isRipe : Constant) (day : Constant) : Row where
  type := ⟨0⟩
  value? f :=
    if f = ripe then some (.constant isRipe) else if f = picked then some (.constant day) else none

/-- Nothing has to be known of types here. -/
def schema : Conceptual := ⟨[], [], []⟩

/-- Four fruits, of which one is known to be ripe and was picked. -/
def rows : List Row :=
  [fruit (.bool true) .null, fruit .null (.int 3), fruit (.bool true) (.int 4),
    fruit (.bool false) (.int 5)]

/-- Ripe fruits that were picked, said in two groups, one of them with an empty conjunction. -/
def groups : List Expr.Group :=
  [.both (.condition (.field ripe)) (.both .nothing (.condition (.conj []))),
    .condition (.isNull true (.field picked))]

end Orchard

namespace Query

open QueryViews.Expr

/-- **Conjunction is a monoid and means conjunction.** Joining expressions is associative and has
`true` as its unit, and the conjunction of a list is the product of its members. A conjunction is
true if it is empty, and otherwise it is read from its operands one by one; and whatever joins two
expressions is read as the conjunction of the two.

So a query that was given its conditions one group after the other, however they are grouped, is
true of the rows on which every one of them is true; and if they all have a truth value on every
row, it makes its values of exactly these rows. -/
theorem keeps_conjunction :
    ((∀ l m r : Expr, (l.and m).and r = l.and (m.and r)) ∧
      (∀ e : Expr, truth.and e = e ∧ e.and truth = e) ∧
      ∀ es fs : List Expr, andAll (es ++ fs) = (andAll es).and (andAll fs)) ∧
    (∀ (c : Conceptual) (row : Row),
      (conj []).holds c row = .ok .yes ∧
      (∀ (e : Expr) (es : List Expr),
        (conj (e :: es)).holds c row = andThen (e.holds c row) ((conj es).holds c row)) ∧
      ∀ l r : Expr, (l.and r).holds c row = andThen (l.holds c row) (r.holds c row) ∧
        ∀ t u, l.holds c row = .ok t → r.holds c row = .ok u →
          (l.and r).holds c row = .ok (t.and u)) ∧
    ∀ (c : Conceptual) (source : Extent) (returning : Expr) (gs : List Group),
      let q := (gs.map Group.joined).foldl addFilter (scan source returning)
      let conditions := gs.flatMap Group.conditions
      (∀ row : Row, q.filter.holds c row = .ok .yes ↔
        ∀ e ∈ conditions, e.holds c row = .ok .yes) ∧
      ∀ rows : List Row,
        (∀ row ∈ rows, ∀ e ∈ conditions, ∃ t, e.holds c row = .ok t) →
        q.run c rows = (rows.filter fun row => conditions.all fun e => e.accepts c row).mapM
          fun row => returning.eval c row := by
  refine ⟨⟨Expr.and_assoc, fun e => ⟨truth_and e, and_truth e⟩, andAll_append⟩,
    fun c row => ⟨?_, fun e es => ?_, fun l r => ⟨holds_and l r, fun t u hl hr => ?_⟩⟩,
    fun c source returning gs => ?_⟩
  · rw [holds_conj, holdsAll]
  · rw [holds_conj, holds_conj, holdsAll_cons]
  · rw [holds_and, hl, hr, andThen_ok]
  · intro q conditions
    have hq : q = ⟨source, andAll conditions, returning⟩ := addFilter_groups source returning gs
    rw [hq]
    refine ⟨fun row => ?_, fun rows hread => ?_⟩
    · rw [holds_andAll, holdsAll_eq_yes_iff]
    · have hfilter : ∀ row ∈ rows, ∃ t, (andAll conditions).holds c row = .ok t := by
        intro row hrow
        rw [holds_andAll]
        exact exists_holdsAll (hread row hrow)
      rw [run_eq_mapM hfilter, List.filter_congr fun row _ => accepts_andAll conditions]

/-- Of four fruits the one that is ripe and was picked is kept: not the one of which it is unknown
whether it is ripe, nor the one that hangs. -/
theorem orchard_keeps :
    (∀ row ∈ Orchard.rows, ∀ e ∈ Orchard.groups.flatMap Group.conditions,
      ∃ t, e.holds Orchard.schema row = .ok t) ∧
    ((Orchard.groups.map Group.joined).foldl addFilter
      (scan Orchard.fruits (.field Orchard.picked))).run Orchard.schema Orchard.rows =
      .ok [.constant (.int 4)] := by
  have hread : ∀ row ∈ Orchard.rows, ∀ e ∈ Orchard.groups.flatMap Group.conditions,
      ∃ t, e.holds Orchard.schema row = .ok t := by
    simp only [Orchard.rows, Orchard.groups, Group.conditions, List.flatMap_cons,
      List.flatMap_nil, List.append_nil, List.nil_append, List.cons_append, List.mem_cons,
      List.not_mem_nil, or_false, forall_eq_or_imp, forall_eq]
    exact ⟨⟨⟨_, rfl⟩, ⟨_, rfl⟩, ⟨_, rfl⟩⟩, ⟨⟨_, rfl⟩, ⟨_, rfl⟩, ⟨_, rfl⟩⟩,
      ⟨⟨_, rfl⟩, ⟨_, rfl⟩, ⟨_, rfl⟩⟩, ⟨_, rfl⟩, ⟨_, rfl⟩, ⟨_, rfl⟩⟩
  obtain ⟨-, -, hqueries⟩ := keeps_conjunction
  obtain ⟨-, hrun⟩ := hqueries Orchard.schema Orchard.fruits (.field Orchard.picked) Orchard.groups
  exact ⟨hread, (hrun Orchard.rows hread).trans rfl⟩

end Query

end QueryViews
