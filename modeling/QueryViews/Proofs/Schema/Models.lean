import QueryViews.Proofs.Conceptual.Hierarchy
import QueryViews.Proofs.Schema.Changes

/-!
# How types come about

Declarations put a type together step by step: it starts without fields, and then it gets fields,
one by one, some of which become part of its key. So much is known of every type of a built schema
(`Schema.Built.declared`), and no check has to ask for it: keys are made of own fields, and a field
that navigates a relationship leads from one end to the other one.
-/

namespace QueryViews

/-- The way along a relationship leads from one end to the other one. -/
def FieldType.Across : FieldType → Prop
  | .navigation _ near far => far = 1 - near
  | .scalar _ | .embedded _ => True

/-- What the type called `id` can look like, however many declarations it took. -/
inductive Model.Declared (id : ModelId) : Model → Prop
  | entity (name : String) (base : Option ModelId) :
    Declared id ⟨name, [], .entity ⟨base, false, []⟩⟩
  | embedded (name : String) : Declared id ⟨name, [], .embedded⟩
  | field {m : Model} (h : Declared id m) (f : Field) (hf : f.type.Across) :
    Declared id { m with fields := m.fields ++ [f] }
  | key {m : Model} (h : Declared id m) {e : EntityType} (he : m.entity? = some e) {f : FieldId}
    (hf : f ∈ m.fieldIds id) : Declared id { m with kind := .entity { e with key := e.key ++ [f] } }
  | marked {m : Model} (h : Declared id m) {e : EntityType} (he : m.entity? = some e) :
    Declared id { m with kind := .entity { e with isAbstract := true } }

/-- Every type came about by declarations. -/
def Conceptual.Declared (c : Conceptual) : Prop :=
  ∀ id m, c.model id = .ok m → m.Declared id

namespace Conceptual

variable {c c' : Conceptual}

/-- A type that is added has come about by declarations, whatever place it gets. -/
theorem Declared.append (h : c.Declared) {m : Model} (hm : ∀ id, m.Declared id) :
    { c with models := c.models ++ [m] }.Declared := by
  intro id m' hm'
  have hfound := found_eq_ok_iff.1 hm'
  rw [List.getElem?_append] at hfound
  split at hfound
  · exact h id m' (found_eq_ok_iff.2 hfound)
  · obtain rfl := List.mem_singleton.1 (List.mem_of_getElem? hfound)
    exact hm id

/-- So has a type that takes the place of another one, if it can be there. -/
theorem Declared.setModel (h : c.Declared) {id : ModelId} {m : Model} (hm : m.Declared id) :
    (c.setModel id m).Declared := by
  intro id' m' hm'
  have hfound : (c.models.set id.index m)[id'.index]? = some m' := found_eq_ok_iff.1 hm'
  rw [List.getElem?_set] at hfound
  split at hfound
  · rename_i heq
    obtain rfl : id = id' := congrArg ModelId.mk heq
    split at hfound
    · cases hfound
      exact hm
    · cases hfound
  · exact h id' m' (found_eq_ok_iff.2 hfound)

/-- A declaration either adds a type, or does one more step to one that is there. -/
theorem Extends.declared {d : Declaration} {i : Issued} (hext : c.Extends d c' i)
    (h : c.Declared) : c'.Declared := by
  cases hext with
  | entity | derivedEntity => exact h.append fun id => .entity _ _
  | embedded => exact h.append fun id => .embedded _
  | markAbstract hm he => exact h.setModel (.marked (h _ _ hm) he)
  | field hm | embeddedField hm => exact h.setModel (.field (h _ _ hm) _ trivial)
  | navigation hm => exact h.setModel (.field (h _ _ hm) _ rfl)
  | @keyField id m e hm he name type =>
    have hfield := (h id m hm).field ⟨name, .scalar type, false, false⟩ trivial
    refine h.setModel (hfield.key he (Model.mem_fieldIds_iff.2 ⟨rfl, ?_⟩))
    rw [List.length_append]
    exact Nat.lt_succ_self _
  | association | foreignKey | markAssociationAbstract | container | entitySet | associationSet =>
    exact h

end Conceptual

namespace Schema

variable {s : Schema}

/-- In a schema that was put together by declarations, so were its types. -/
theorem Built.declared (hs : s.Built) : s.conceptual.Declared :=
  hs.induction (fun _ _ h => nomatch h) fun _ _ _ _ h hd =>
    (change_of_declare hd).conceptual_induction h fun hext => hext.declared h

end Schema

namespace Model

variable {m : Model} {id : ModelId}

/-- The key of a model is made of fields that it declares; the model is the one called `id`. -/
def OwnsKey (m : Model) (id : ModelId) : Prop :=
  ∀ e, m.entity? = some e → ∀ f ∈ e.key, f ∈ m.fieldIds id

/-- A field is still one of a type that got more fields. -/
theorem mem_fieldIds_append {f : FieldId} (h : f ∈ m.fieldIds id) (fields : List Field) :
    f ∈ { m with fields := m.fields ++ fields }.fieldIds id := by
  obtain ⟨hmodel, hindex⟩ := mem_fieldIds_iff.1 h
  refine mem_fieldIds_iff.2 ⟨hmodel, hindex.trans_le ?_⟩
  rw [List.length_append]
  exact Nat.le_add_right _ _

/-- A type that was declared has its key among its own fields. -/
theorem Declared.ownsKey (h : m.Declared id) : m.OwnsKey id := by
  induction h with
  | entity name base =>
    rintro e ⟨⟩ f hf
    cases hf
  | embedded name => exact nofun
  | field h f hf ih => exact fun e he g hg => mem_fieldIds_append (ih e he g hg) [f]
  | key h he hf ih =>
    rintro e' ⟨⟩ g hg
    rcases List.mem_append.1 hg with hg | hg
    · exact ih _ he g hg
    · obtain rfl := List.mem_singleton.1 hg
      exact hf
  | marked h he ih =>
    rintro e' ⟨⟩ g hg
    exact ih _ he g hg

/-- Navigations that were declared lead to the other end. -/
theorem Declared.across (h : m.Declared id) : ∀ f ∈ m.fields, f.type.Across := by
  induction h with
  | entity name base | embedded name => exact nofun
  | field h f hf ih =>
    intro g hg
    rcases List.mem_append.1 hg with hg | hg
    · exact ih g hg
    · obtain rfl := List.mem_singleton.1 hg
      exact hf
  | key h he hf ih => exact ih
  | marked h he ih => exact ih

end Model

end QueryViews
