import QueryViews.Proofs.Schema.Roots
import Mathlib.Order.Defs.Unbundled

/-!
# Verified inheritance

A type may be declared before its base type, so base ids can be anything until verification follows
them. It counts its steps and gives up after as many as there are types. That is exact
(`Schema.inheritance_ordered`): a chain without repetition is never longer, and one that is longer
comes by some type twice.

What is verified then is an order: "is, or derives from" is a partial order on the types, and
above each type it is linear, up to the root.
-/

namespace QueryViews

open Relation

namespace Conceptual

variable {c : Conceptual}

/-- The first type is declared with the second one as its base type. -/
def Derives (c : Conceptual) (a b : ModelId) : Prop :=
  ∃ m, c.model a = .ok m ∧ m.base? = some b

/-- A way up that is longer than there are types comes by some type twice. -/
theorem exists_cycle {path : List ModelId} (hpath : path.Pairwise (TransGen c.Derives))
    (hdeclared : ∀ t ∈ path, ∃ m, c.model t = .ok m) (hlong : c.models.length < path.length) :
    ∃ t ∈ path, TransGen c.Derives t t := by
  by_contra hnone
  have hnodup : path.Nodup := by
    refine hpath.imp_of_mem fun {a b} ha _ hab heq => ?_
    subst heq
    exact hnone ⟨a, ha, hab⟩
  exact absurd (length_le_of_nodup hnodup hdeclared) (Nat.not_le_of_lt hlong)

end Conceptual

namespace Schema

variable {s : Schema}

/-! ## Chains that are refused -/

/-- Where base types cannot be followed to their end, either one of them is not declared, or there
are more of them than allowed. -/
theorem checkBases_of_ne_ok {name : String} {bound : Nat} {base : ModelId}
    (h : s.checkBases name bound (some base) ≠ .ok ()) :
    (s.checkBases name bound (some base) = invalid s!"type `{name}` derives from an unknown type" ∧
      ∃ t, ReflTransGen s.conceptual.Derives base t ∧ ∀ m, s.conceptual.model t ≠ .ok m) ∨
    s.checkBases name bound (some base) = invalid s!"type `{name}` has a cyclic inheritance chain" ∧
      ∃ path : List ModelId, bound < path.length ∧
        path.Pairwise (TransGen s.conceptual.Derives) ∧ ∀ t ∈ path,
          ReflTransGen s.conceptual.Derives base t ∧ ∃ m, s.conceptual.model t = .ok m := by
  -- on the number of steps left: the path of types met so far grows with each step
  induction bound generalizing base with
  | zero =>
    rw [checkBases] at h ⊢
    cases hbase : s.conceptual.models[base.index]? with
    | none =>
      refine .inl ⟨rfl, base, .refl, fun m hm => ?_⟩
      cases hbase.symm.trans (found_eq_ok_iff.1 hm)
    | some m =>
      refine .inr ⟨rfl, [base], Nat.zero_lt_one, List.pairwise_singleton _ _, ?_⟩
      exact List.forall_mem_singleton.2 ⟨.refl, m, found_eq_ok_iff.2 hbase⟩
  | succ bound ih =>
    rw [checkBases] at h ⊢
    cases hbase : s.conceptual.models[base.index]? with
    | none =>
      refine .inl ⟨rfl, base, .refl, fun m hm => ?_⟩
      cases hbase.symm.trans (found_eq_ok_iff.1 hm)
    | some m =>
      have hm : s.conceptual.model base = .ok m := found_eq_ok_iff.2 hbase
      simp only [hbase] at h ⊢
      cases hnext : m.base? with
      | none =>
        rw [hnext, checkBases] at h
        exact absurd rfl h
      | some next =>
        rw [hnext] at h
        have hstep : s.conceptual.Derives base next := ⟨m, hm, hnext⟩
        rcases ih h with ⟨heq, t, ht, hunknown⟩ | ⟨heq, path, hlong, hpath, hall⟩
        · exact .inl ⟨heq, t, .head hstep ht, hunknown⟩
        · refine .inr ⟨heq, base :: path, Nat.succ_lt_succ hlong, ?_, ?_⟩
          · exact List.pairwise_cons.2 ⟨fun t ht => .head' hstep (hall t ht).1, hpath⟩
          · exact List.forall_mem_cons.2
              ⟨⟨.refl, m, hm⟩, fun t ht => ⟨.head hstep (hall t ht).1, (hall t ht).2⟩⟩

/-- A schema whose inheritance is refused has a type whose base types lead to one that is not
declared, or into a cycle, and it is told which of the two. -/
theorem checkInheritance_of_ne_ok (h : s.checkInheritance ≠ .ok ()) :
    ∃ id m, s.conceptual.model id = .ok m ∧
      ((s.checkInheritance = invalid s!"type `{m.name}` derives from an unknown type" ∧
        ∃ t, ReflTransGen s.conceptual.Derives id t ∧ ∀ m, s.conceptual.model t ≠ .ok m) ∨
      s.checkInheritance = invalid s!"type `{m.name}` has a cyclic inheritance chain" ∧
        ∃ t, ReflTransGen s.conceptual.Derives id t ∧ TransGen s.conceptual.Derives t t) := by
  obtain ⟨m, hmem, hfails, heq⟩ := exists_of_forM_ne_ok h
  obtain ⟨index, hindex⟩ := List.mem_iff_getElem?.1 hmem
  have hm : s.conceptual.model ⟨index⟩ = .ok m := found_eq_ok_iff.2 hindex
  refine ⟨⟨index⟩, m, hm, ?_⟩
  cases hbase : m.base? with
  | none =>
    rw [hbase, checkBases] at hfails
    exact absurd rfl hfails
  | some base =>
    have hstep : s.conceptual.Derives ⟨index⟩ base := ⟨m, hm, hbase⟩
    rw [hbase] at hfails heq
    rw [checkInheritance, heq]
    rcases checkBases_of_ne_ok hfails with ⟨heq, t, ht, hunknown⟩ | ⟨heq, path, hlong, hpath, hall⟩
    · exact .inl ⟨heq, t, .head hstep ht, hunknown⟩
    · obtain ⟨t, ht, hcycle⟩ :=
        Conceptual.exists_cycle hpath (fun t ht => (hall t ht).2) hlong
      exact .inr ⟨heq, t, .head hstep (hall t ht).1, hcycle⟩

/-! ## The order of types -/

/-- In a verified schema, to be a type or to derive from it is a partial order. -/
theorem Verified.isPartialOrder (hv : s.Verified) :
    IsPartialOrder {id // ∃ m, s.conceptual.model id = .ok m} fun a b =>
      s.conceptual.isAssignable a b = .ok true where
  refl := fun ⟨id, m, hm⟩ => by
    obtain ⟨chain, hchain⟩ := hv.exists_ancestors hm
    exact Conceptual.isAssignable_self hchain
  trans := fun _ _ _ => Conceptual.isAssignable_trans
  antisymm := fun _ _ h h' => Subtype.ext (Conceptual.isAssignable_antisymm h h')

/-- **Inheritance.** Verification ends for whatever base types were declared. It passes exactly if
each type has a finite chain of types that are declared; where it fails, some type leads to one that
is not declared or into a cycle, as the message says.

In a built schema the types above each type are found, none of them twice; going up, each is
assignable to all that follow, and the last one is the root. So assignability is a partial order,
and strict subtypes are its strict part. -/
theorem inheritance_ordered (s : Schema) :
    (s.checkInheritance = .ok () ↔
      ∀ id m, s.conceptual.model id = .ok m → ∃ chain, s.conceptual.Chain id chain) ∧
    (s.checkInheritance ≠ .ok () → ∃ id m, s.conceptual.model id = .ok m ∧
      ((s.checkInheritance = invalid s!"type `{m.name}` derives from an unknown type" ∧
        ∃ t, ReflTransGen s.conceptual.Derives id t ∧ ∀ m, s.conceptual.model t ≠ .ok m) ∨
      s.checkInheritance = invalid s!"type `{m.name}` has a cyclic inheritance chain" ∧
        ∃ t, ReflTransGen s.conceptual.Derives id t ∧ TransGen s.conceptual.Derives t t)) ∧
    (s.Built →
      (∀ id m, s.conceptual.model id = .ok m → ∃ chain root,
        s.conceptual.ancestors id = .ok chain ∧ s.conceptual.Chain id chain ∧ chain.Nodup ∧
        (∀ a, s.conceptual.isAssignable id a = .ok (decide (a ∈ chain)) ∧
          s.conceptual.isStrictSubtype id a = .ok (decide (a ∈ chain ∧ a ≠ id))) ∧
        (chain.Pairwise fun a b => s.conceptual.isAssignable a b = .ok true) ∧
        s.conceptual.root id = .ok root ∧ chain.getLast? = some root) ∧
      (IsPartialOrder {id // ∃ m, s.conceptual.model id = .ok m} fun a b =>
        s.conceptual.isAssignable a b = .ok true) ∧
      ∀ a b, s.conceptual.isStrictSubtype a b = .ok true ↔
        s.conceptual.isAssignable a b = .ok true ∧ s.conceptual.isAssignable b a ≠ .ok true) := by
  refine ⟨checkInheritance_eq_ok_iff, checkInheritance_of_ne_ok, fun hs =>
    ⟨fun id m hm => ?_, hs.verified.isPartialOrder, fun a b => ?_⟩⟩
  · obtain ⟨chain, h⟩ := hs.verified.exists_ancestors hm
    obtain ⟨root, -, hroot, hlast, -⟩ := Conceptual.exists_root h
    have hchain := Conceptual.chain_of_ancestors h
    have hassignable (a : ModelId) : s.conceptual.isAssignable id a = .ok (decide (a ∈ chain)) :=
      Conceptual.isAssignable_eq_ok_iff.2 ⟨chain, h, decide_eq_true_iff⟩
    have hstrict (a : ModelId) :
        s.conceptual.isStrictSubtype id a = .ok (decide (a ∈ chain ∧ a ≠ id)) := by
      rw [Conceptual.isStrictSubtype, hassignable]
      by_cases heq : id = a <;> simp [heq, eq_comm]
    exact ⟨chain, root, h, hchain, hchain.nodup, fun a => ⟨hassignable a, hstrict a⟩,
      Conceptual.pairwise_of_ancestors h, hroot, hlast⟩
  · exact Conceptual.isStrictSubtype_eq_true_iff

end Schema

namespace Zoo

/-- Four types, the lowest of them declared first. -/
def declarations : List Declaration := [
  .derivedEntity "Lion" ⟨2⟩, .entity "Animal", .derivedEntity "Cat" ⟨1⟩, .derivedEntity "Dog" ⟨1⟩,
  .field .key ⟨1⟩ "Id" .int32]

/-- The schema that they make: a lion is a cat, and cats and dogs are animals. -/
def schema : Schema where
  conceptual := ⟨[⟨"Lion", [], .entity ⟨some ⟨2⟩, false, []⟩⟩,
    ⟨"Animal", [⟨"Id", .scalar .int32, false, false⟩], .entity ⟨none, false, [⟨⟨1⟩, 0⟩]⟩⟩,
    ⟨"Cat", [], .entity ⟨some ⟨1⟩, false, []⟩⟩, ⟨"Dog", [], .entity ⟨some ⟨1⟩, false, []⟩⟩], [], []⟩
  store := ⟨[], []⟩
  mapping := ⟨[]⟩

theorem built : schema.Built := ⟨declarations, _, rfl⟩

/-- A type that is not on a cycle itself, but below two types that derive from each other. -/
def circular : Schema where
  conceptual := ⟨[⟨"Lion", [], .entity ⟨some ⟨1⟩, false, []⟩⟩,
    ⟨"Cat", [], .entity ⟨some ⟨2⟩, false, []⟩⟩,
    ⟨"Feline", [], .entity ⟨some ⟨1⟩, false, []⟩⟩], [], []⟩
  store := ⟨[], []⟩
  mapping := ⟨[]⟩

/-- Such a schema is refused. -/
theorem circular_refused : circular.checkInheritance ≠ .ok () := nofun

example : circular.checkInheritance = invalid "type `Lion` has a cyclic inheritance chain" := rfl

/-- Lions are below cats and animals, with animals at the top; where types go round in a circle,
verification tells so. -/
theorem lion_ordered : schema.Built ∧
    (∃ chain root, schema.conceptual.ancestors ⟨0⟩ = .ok chain ∧ chain.Nodup ∧
      (chain.Pairwise fun a b => schema.conceptual.isAssignable a b = .ok true) ∧
      schema.conceptual.root ⟨0⟩ = .ok root ∧ chain.getLast? = some root) ∧
    schema.conceptual.isAssignable ⟨1⟩ ⟨0⟩ ≠ .ok true ∧
    circular.checkInheritance ≠ .ok () ∧ ∃ id m, circular.conceptual.model id = .ok m ∧
      (circular.checkInheritance = invalid s!"type `{m.name}` derives from an unknown type" ∨
        ∃ t, TransGen circular.conceptual.Derives t t) := by
  obtain ⟨-, -, hordered⟩ := Schema.inheritance_ordered schema
  obtain ⟨hchains, -, hstrict⟩ := hordered built
  obtain ⟨chain, root, hchain, -, hnodup, -, hpairwise, hroot, hlast⟩ := hchains ⟨0⟩ _ rfl
  obtain ⟨-, hrefused, -⟩ := Schema.inheritance_ordered circular
  obtain ⟨id, m, hm, hreason⟩ := hrefused circular_refused
  exact ⟨built, ⟨chain, root, hchain, hnodup, hpairwise, hroot, hlast⟩,
    ((hstrict ⟨0⟩ ⟨1⟩).1 rfl).2, circular_refused, id, m, hm,
    hreason.imp And.left fun ⟨_, t, _, hcycle⟩ => ⟨t, hcycle⟩⟩

end Zoo

end QueryViews
