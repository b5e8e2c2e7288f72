import QueryViews.Proofs.Schema.Verified
import QueryViews.Expr.Conjunction

/-!
# What a query gives

A query is read over rows: each has a type, and values for the fields that the type has. A filter
is a condition with three truth values, a null being neither true nor false, and only the rows on
which it is true are kept. A conjunction is read from the left and no further than the first
operand that is false, so a test of the type guards what comes after it: to read a field that the
row has not is no null but a failure.

Joining two expressions, however their operands are taken over, is the conjunction of what they
say (`Expr.holds_and`); so a filter that was put together one condition at a time is true where all
of them are (`Query.holds_addFilters`).
-/

namespace QueryViews

/-! ## Rows and values -/

/-- What a row holds and what is made of it. -/
inductive Value
  | constant (c : Constant)
  | record (fields : List Value)
  | ref (set : EntitySetId) (key : List Value)
  | relationship (association : AssociationId) (ends : List Value)

/-- Whether a value is the null. -/
def Value.isNull : Value → Bool
  | .constant c => c.isNull
  | _ => false

/-- A row of an entity set: the type of the entity and the values of its fields. -/
structure Row where
  type : ModelId
  value? : FieldId → Option Value

/-- The field has a value that is not null. -/
def Row.has (row : Row) (f : FieldId) : Bool := (row.value? f).any (!·.isNull)

/-- The value of a field, null where the row has not got it. -/
def Row.get (row : Row) (f : FieldId) : Value := (row.value? f).getD (.constant .null)

/-- A field that the row has can be read off it. -/
theorem Row.value?_eq_get {row : Row} {f : FieldId} (h : ∃ v, row.value? f = some v) :
    row.value? f = some (row.get f) := by
  obtain ⟨v, hv⟩ := h
  rw [Row.get, hv, Option.getD_some]

/-- Why an expression has no value on a row. -/
inductive Misreading
  | noValue (field : FieldId)
  /-- a condition is needed, and the value is neither a truth value nor null -/
  | notCondition

/-- A value that is read, or the reason why it cannot be. -/
abbrev Reading := Except (Failure Misreading)

/-- The value of a field on a row that has it. -/
def Row.read (row : Row) (f : FieldId) : Reading Value :=
  match row.value? f with
  | some v => .ok v
  | none => .error (.error (.noValue f))

/-! ## Three truth values -/

/-- Truth with a third value for what is not known. -/
inductive Truth
  | no
  | unknown
  | yes
  deriving DecidableEq

namespace Truth

/-- What is known is true or not. -/
def ofBool (b : Bool) : Truth := if b then yes else no

/-- Conjunction: as false as the falser of the two. -/
def and : Truth → Truth → Truth
  | no, _ => no
  | yes, t => t
  | unknown, no => no
  | unknown, _ => unknown

/-- Truth as a value; what is not known is a null. -/
def value : Truth → Value
  | no => .constant (.bool false)
  | unknown => .constant .null
  | yes => .constant (.bool true)

@[simp] theorem ofBool_eq_yes_iff {b : Bool} : ofBool b = yes ↔ b = true := by
  cases b <;> decide

/-- Of what is known, the conjunction is known. -/
theorem ofBool_and (b b' : Bool) : ofBool (b && b') = (ofBool b).and (ofBool b') := by
  cases b <;> rfl

end Truth

/-- A value as a condition. -/
def Value.truth : Value → Reading Truth
  | .constant (.bool b) => .ok (.ofBool b)
  | .constant .null => .ok .unknown
  | _ => .error (.error .notCondition)

/-- Truth can be told from its value. -/
@[simp] theorem Truth.truth_value (t : Truth) : t.value.truth = .ok t := by cases t <;> rfl

/-- The conjunction of two conditions, of which the second is not read where the first is false. -/
def andThen (x y : Reading Truth) : Reading Truth := do
  match ← x with
  | .no => return .no
  | t => return t.and (← y)

/-- Where both are read, it is the conjunction of what they say. -/
@[simp] theorem andThen_ok (t u : Truth) : andThen (.ok t) (.ok u) = .ok (t.and u) := by
  cases t <;> rfl

/-- What is true adds nothing in front. -/
@[simp] theorem yes_andThen (y : Reading Truth) : andThen (.ok .yes) y = y := by
  cases y <;> rfl

/-- What is true adds nothing behind. -/
@[simp] theorem andThen_yes (x : Reading Truth) : andThen x (.ok .yes) = x := by
  rcases x with _ | (_ | _ | _) <;> rfl

/-- Conjunction of conditions is associative, also where a later one cannot be read. -/
theorem andThen_assoc (x y z : Reading Truth) :
    andThen (andThen x y) z = andThen x (andThen y z) := by
  rcases x with _ | (_ | _ | _) <;> rcases y with _ | (_ | _ | _) <;>
    rcases z with _ | (_ | _ | _) <;> rfl

/-! ## Expressions -/

mutual

/-- The value of an expression on a row. -/
def Expr.eval (c : Conceptual) (row : Row) : Expr → Reading Value
  | .conj es => Truth.value <$> Expr.holdsAll c row es
  | .field id => row.read id
  | .isNull negated e => do return (Truth.ofBool ((← e.eval c row).isNull != negated)).value
  | .isOf true type => .ok (Truth.ofBool (row.type = type)).value
  | .isOf false type => do return (Truth.ofBool (← c.isAssignable row.type type)).value
  | .record es => Value.record <$> Expr.evals c row es
  | .ref set key => Value.ref set <$> Expr.evals c row key
  | .relationship a ends => Value.relationship a <$> Expr.evals c row ends
  | .constant v => .ok (.constant v)

/-- The values of several expressions, from the left. -/
def Expr.evals (c : Conceptual) (row : Row) : List Expr → Reading (List Value)
  | [] => .ok []
  | e :: es => do return (← e.eval c row) :: (← Expr.evals c row es)

/-- The conjunction of the conditions, from the left. -/
def Expr.holdsAll (c : Conceptual) (row : Row) : List Expr → Reading Truth
  | [] => .ok .yes
  | e :: es => andThen (e.eval c row >>= Value.truth) (Expr.holdsAll c row es)

end

namespace Expr

variable {c : Conceptual} {row : Row}

/-- The truth of a condition on a row. -/
def holds (c : Conceptual) (row : Row) (e : Expr) : Reading Truth := e.eval c row >>= Value.truth

/-- A conjunction is read from its front. -/
theorem holdsAll_cons (e : Expr) (es : List Expr) :
    holdsAll c row (e :: es) = andThen (e.holds c row) (holdsAll c row es) := by
  rw [holdsAll, holds]

/-- Two conjunctions, one after the other, are one. -/
theorem holdsAll_append (es fs : List Expr) :
    holdsAll c row (es ++ fs) = andThen (holdsAll c row es) (holdsAll c row fs) := by
  induction es with
  | nil => rw [List.nil_append, holdsAll, yes_andThen]
  | cons e es ih => rw [List.cons_append, holdsAll_cons, ih, holdsAll_cons, andThen_assoc]

theorem holds_conj (es : List Expr) : (conj es).holds c row = holdsAll c row es := by
  rw [holds, eval]
  cases holdsAll c row es with
  | error e => rfl
  | ok t => exact t.truth_value

/-- A condition is the conjunction of its operands. -/
theorem holdsAll_operands (e : Expr) : holdsAll c row e.operands = e.holds c row := by
  have single : holdsAll c row [e] = e.holds c row := by
    rw [holdsAll_cons, holdsAll, andThen_yes]
  cases e with
  | conj es => exact (holds_conj es).symm
  | _ => exact single

/-- There is one expression that counts as true. -/
theorem isTrue_iff {e : Expr} : e.isTrue = true ↔ e = truth := by
  constructor
  · intro h
    unfold isTrue at h
    split at h
    · rfl
    · cases h
  · rintro rfl
    rfl

/-- And that holds on every row. -/
theorem holds_truth : truth.holds c row = .ok .yes := by
  rw [holds, truth, eval]
  rfl

/-- Joining two expressions is the conjunction of what they say. -/
theorem holds_and (l r : Expr) :
    (l.and r).holds c row = andThen (l.holds c row) (r.holds c row) := by
  rw [Expr.and]
  split
  · rename_i hl
    rw [isTrue_iff.1 hl, holds_truth, yes_andThen]
  · split
    · rename_i hr
      rw [isTrue_iff.1 hr, holds_truth, andThen_yes]
    · rw [holds_conj, holdsAll_append, holdsAll_operands, holdsAll_operands]

/-- Conditions of which each is true or false are true together if each is true. -/
theorem holdsAll_map {ι : Type} {l : List ι} {f : ι → Expr} {p : ι → Bool}
    (h : ∀ i ∈ l, (f i).holds c row = .ok (.ofBool (p i))) :
    holdsAll c row (l.map f) = .ok (.ofBool (l.all p)) := by
  induction l with
  | nil => rw [List.map_nil, holdsAll, List.all_nil, Truth.ofBool, if_pos rfl]
  | cons i l ih =>
    have hl := ih fun j hj => h j (List.mem_cons_of_mem i hj)
    rw [List.map_cons, holdsAll_cons, h i List.mem_cons_self, hl, andThen_ok, List.all_cons,
      Truth.ofBool_and]

/-- The test for a value, on a row that has the field at all. -/
theorem holds_isNotNull {f : FieldId} {v : Value} (h : row.value? f = some v) :
    (isNull true (field f)).holds c row = .ok (.ofBool (row.has f)) := by
  rw [holds, eval, eval, Row.read, Row.has, h, Option.any_some, ← Bool.bne_true]
  exact Truth.truth_value _

/-- The values of a list of expressions, given that of each. -/
theorem evals_map {ι : Type} {l : List ι} {f : ι → Expr} {g : ι → Value}
    (h : ∀ i ∈ l, (f i).eval c row = .ok (g i)) : evals c row (l.map f) = .ok (l.map g) := by
  induction l with
  | nil => rw [List.map_nil, evals, List.map_nil]
  | cons i l ih =>
    have hl := ih fun j hj => h j (List.mem_cons_of_mem i hj)
    rw [List.map_cons, evals, h i List.mem_cons_self, hl]
    rfl

/-- A reference is made of the values of the fields that it names. -/
theorem eval_ref {set : EntitySetId} {fields : List FieldId}
    (h : ∀ f ∈ fields, ∃ v, row.value? f = some v) :
    (ref set (fields.map .field)).eval c row = .ok (.ref set (fields.map row.get)) := by
  have hfield : ∀ f ∈ fields, (field f).eval c row = .ok (row.get f) := fun f hf => by
    rw [eval, Row.read, Row.value?_eq_get (h f hf)]
  rw [eval, evals_map hfield]
  rfl

end Expr

/-! ## Queries -/

namespace Query

variable {c : Conceptual} {row : Row}

/-- What a query makes of the rows on which its filter is true, in their order. -/
def run (c : Conceptual) (q : Query) : List Row → Reading (List Value)
  | [] => .ok []
  | row :: rows => do
    let kept ← q.filter.holds c row
    if kept = .yes then
      let value ← q.returning.eval c row
      return value :: (← q.run c rows)
    else
      q.run c rows

/-- A filter that was narrowed by some conditions is true where it was and all of them are. -/
theorem holds_addFilters (q : Query) (es : List Expr) :
    (es.foldl addFilter q).filter.holds c row =
      andThen (q.filter.holds c row) (Expr.holdsAll c row es) := by
  induction es generalizing q with
  | nil => rw [List.foldl_nil, Expr.holdsAll, andThen_yes]
  | cons e es ih =>
    rw [List.foldl_cons, ih, addFilter, Expr.holds_and, andThen_assoc, Expr.holdsAll_cons]

/-- Filters do not change what a query returns. -/
theorem returning_addFilters (q : Query) (es : List Expr) :
    (es.foldl addFilter q).returning = q.returning := by
  induction es generalizing q with
  | nil => rfl
  | cons e es ih => exact ih _

/-- Filters do not change what a query scans. -/
theorem source_addFilters (q : Query) (es : List Expr) :
    (es.foldl addFilter q).source = q.source := by
  induction es generalizing q with
  | nil => rfl
  | cons e es ih => exact ih _

/-- A query whose filter tells the rows that are to be kept, and which makes of each of them what is
to be made of it, gives one value for each of them and nothing else. -/
theorem run_of_forall {q : Query} {rows : List Row} {keep : Row → Prop} [DecidablePred keep]
    {made : Row → Value → Prop}
    (hfilter : ∀ row ∈ rows, ∃ t, q.filter.holds c row = .ok t ∧ (t = .yes ↔ keep row))
    (hreturning : ∀ row ∈ rows, keep row → ∃ v, q.returning.eval c row = .ok v ∧ made row v) :
    ∃ values, q.run c rows = .ok values ∧ List.Forall₂ made (rows.filter keep) values := by
  -- row by row: the filter decides, and only for a row that is kept something is made
  induction rows with
  | nil => exact ⟨[], rfl, .nil⟩
  | cons row rows ih =>
    obtain ⟨t, ht, hkeep⟩ := hfilter row List.mem_cons_self
    obtain ⟨values, hvalues, hmade⟩ := ih (fun r hr => hfilter r (List.mem_cons_of_mem _ hr))
      fun r hr => hreturning r (List.mem_cons_of_mem _ hr)
    by_cases hk : keep row
    · obtain ⟨v, hv, hm⟩ := hreturning row List.mem_cons_self hk
      refine ⟨v :: values, ?_, ?_⟩
      · rw [run, ht, hvalues, hv, hkeep.2 hk]
        rfl
      · rw [List.filter_cons_of_pos (by simpa using hk)]
        exact .cons hm hmade
    · refine ⟨values, ?_, ?_⟩
      · rw [run, ht, hvalues]
        exact if_neg fun hyes => hk (hkeep.1 hyes)
      · rw [List.filter_cons_of_neg (by simpa using hk)]
        exact hmade

end Query

end QueryViews
