import QueryViews.Conceptual.Hierarchy

/-!
# The closure of a container

The types and relationships that a container speaks of: the entity types that its entity sets can
hold, the relationships of its association sets, and all that these refer to in turn, by base
types, by the fields of a type and by the ends of a relationship.

The walk keeps a list of what is still to be visited and a list of what was seen. Each step sees
something declared for the first time or shortens what is to be visited, so the walk ends whatever
circles the references form.
-/

namespace QueryViews

/-- A type or a relationship. -/
inductive Element
  | model (id : ModelId)
  | association (id : AssociationId)
  deriving DecidableEq

/-- The type that an element is, if it is one. -/
def Element.model? : Element → Option ModelId
  | .model id => some id
  | .association _ => none

/-- The association that an element is, if it is one. -/
def Element.association? : Element → Option AssociationId
  | .association id => some id
  | .model _ => none

/-- What the type of a field refers to. -/
def FieldType.refersTo : FieldType → List Element
  | .scalar _ => []
  | .embedded target => [.model target]
  | .navigation association _ _ => [.association association]

namespace Conceptual

/-- Everything declared. -/
def elements (c : Conceptual) : List Element :=
  c.modelIds.map .model ++ (List.range c.associations.length).map fun index => .association ⟨index⟩

/-- What an element refers to. -/
def refersTo (c : Conceptual) : Element → Except Fault (List Element)
  | .model id => do
    let m ← c.model id
    return m.base?.toList.map .model ++ m.fields.flatMap fun f => f.type.refersTo
  | .association id => do
    let a ← c.association id
    return a.ends.toList.map fun e => .model e.model

/-- What refers to anything is there. -/
theorem mem_elements_of_refersTo {c : Conceptual} {e : Element} {next : List Element}
    (h : c.refersTo e = .ok next) : e ∈ c.elements := by
  cases e with
  | model id =>
    obtain ⟨index⟩ := id
    cases hm : c.models[index]? with
    | none => simp [refersTo, model, hm, bind, Except.bind] at h
    | some m =>
      obtain ⟨hlt, -⟩ := List.getElem?_eq_some_iff.1 hm
      simp [elements, modelIds, hlt]
  | association id =>
    obtain ⟨index⟩ := id
    cases ha : c.associations[index]? with
    | none => simp [refersTo, association, ha, bind, Except.bind] at h
    | some a =>
      obtain ⟨hlt, -⟩ := List.getElem?_eq_some_iff.1 ha
      simp [elements, hlt]

/-- What is declared and not seen yet. -/
def unseen (c : Conceptual) (seen : List Element) : List Element :=
  c.elements.filter (· ∉ seen)

/-- A stronger test keeps fewer elements if it drops one. -/
theorem length_filter_lt {α : Type} {p q : α → Bool} {l : List α} {x : α} (hx : x ∈ l)
    (hp : p x = true) (hq : q x = false) (h : ∀ a, q a = true → p a = true) :
    (l.filter q).length < (l.filter p).length := by
  induction l with
  | nil => cases hx
  | cons a l ih =>
    have hle : (l.filter q).length ≤ (l.filter p).length := by
      simpa only [List.countP_eq_length_filter] using List.countP_mono_left fun a _ => h a
    rcases List.mem_cons.1 hx with rfl | hx
    · rw [List.filter_cons_of_pos hp, List.filter_cons_of_neg (Bool.eq_false_iff.1 hq)]
      exact Nat.lt_succ_of_le hle
    · by_cases hqa : q a = true
      · rw [List.filter_cons_of_pos hqa, List.filter_cons_of_pos (h a hqa)]
        exact Nat.succ_lt_succ (ih hx)
      · rw [List.filter_cons_of_neg hqa]
        by_cases hpa : p a = true
        · rw [List.filter_cons_of_pos hpa]
          exact Nat.lt_succ_of_lt (ih hx)
        · rw [List.filter_cons_of_neg hpa]
          exact ih hx

/-- Whenever an element of the model is seen, there are fewer left to see: the walk ends. -/
theorem length_unseen_cons_lt {c : Conceptual} {seen : List Element} {e : Element}
    (hc : e ∈ c.elements) (hs : e ∉ seen) :
    (c.unseen (e :: seen)).length < (c.unseen seen).length :=
  length_filter_lt hc (by simpa using hs) (by simp) (by simp)

/-- Visits what is to be visited, and what it refers to; gives back all that was seen. -/
def visit (c : Conceptual) (todo seen : List Element) : Except Fault (List Element) :=
  match todo with
  | [] => .ok seen
  | e :: rest =>
    if _hs : e ∈ seen then c.visit rest seen
    else
      match _h : c.refersTo e with
      | .error f => .error f
      | .ok next => c.visit (next ++ rest) (e :: seen)
termination_by ((c.unseen seen).length, todo.length)
decreasing_by
  · exact Prod.Lex.right _ (by simp)
  · exact Prod.Lex.left _ _ (length_unseen_cons_lt (mem_elements_of_refersTo _h) _hs)

/-- What a container speaks of directly. -/
def containerElements (c : Conceptual) (owner : Container) : Except Fault (List Element) := do
  let types ← owner.entitySets.mapM fun set => c.subtypes set.model
  return types.flatten.map .model ++
    owner.associationSets.map fun set => .association set.association

/-- The types and relationships that a container speaks of, directly or not. -/
def closure (c : Conceptual) (owner : Container) : Except Fault (List Element) := do
  c.visit (← c.containerElements owner) []

end Conceptual

end QueryViews
