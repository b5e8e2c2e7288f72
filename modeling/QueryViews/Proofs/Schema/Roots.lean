import QueryViews.Proofs.Schema.Resolved

/-!
# Roots with a key

A key is declared by the root of a hierarchy. Verification asks for it where the root is an entity
type, but it does not ask that base types are entity types: a hierarchy may end at an embedded type,
which has no key. So a type has a key exactly if the root above it is an entity type
(`Verified.keyFields_ne_nil_iff`), and all entity types have one exactly if all their base types are
entity types (`Verified.entityBases_iff`).
-/

namespace QueryViews

namespace Conceptual

variable {c : Conceptual} {id : ModelId} {m : Model} {chain : List ModelId}

/-- The root above a type is an entity type. -/
def HasEntityRoot (c : Conceptual) (id : ModelId) : Prop :=
  ∃ root r, c.root id = .ok root ∧ c.model root = .ok r ∧ r.isEntity = true

/-- Every base type is an entity type. -/
def EntityBases (c : Conceptual) : Prop :=
  ∀ id m base b, c.model id = .ok m → m.base? = some base → c.model base = .ok b →
    b.isEntity = true

/-- What has a base was declared as an entity type. -/
theorem isEntity_of_base {base : ModelId} (h : m.base? = some base) : m.isEntity = true := by
  cases hentity : m.entity? with
  | none => simp [Model.base?, hentity] at h
  | some e => simp [Model.isEntity, hentity]

/-- The last type of a chain has no base type. -/
theorem Chain.exists_last (h : c.Chain id chain) :
    ∃ root r, chain.getLast? = some root ∧ c.model root = .ok r ∧ r.base? = none := by
  induction h with
  | root hm hbase => exact ⟨_, _, rfl, hm, hbase⟩
  | derived hm hbase rest ih =>
    obtain ⟨root, r, hroot, hr⟩ := ih
    exact ⟨root, r, by rw [List.getLast?_cons, hroot]; rfl, hr⟩

/-- The types of a chain are entity types if the last one is: all others have a base type. -/
theorem Chain.isEntity_of_last (h : c.Chain id chain) {root : ModelId} {r : Model}
    (hroot : chain.getLast? = some root) (hr : c.model root = .ok r) (hentity : r.isEntity = true)
    {t : ModelId} (ht : t ∈ chain) : ∃ m, c.model t = .ok m ∧ m.isEntity = true := by
  induction h with
  | root hm hbase =>
    obtain rfl := List.mem_singleton.1 ht
    cases hroot
    exact ⟨r, hr, hentity⟩
  | derived hm hbase rest ih =>
    rcases List.mem_cons.1 ht with rfl | ht
    · exact ⟨_, hm, isEntity_of_base hbase⟩
    · obtain ⟨last, -, hlast, -⟩ := rest.exists_last
      rw [List.getLast?_cons, hlast] at hroot
      cases hroot
      exact ih hlast ht

/-- The root of a type is the last type of its chain. -/
theorem exists_root (h : c.ancestors id = .ok chain) : ∃ root r, c.root id = .ok root ∧
    chain.getLast? = some root ∧ c.model root = .ok r ∧ r.base? = none := by
  obtain ⟨root, r, hlast, hr⟩ := (chain_of_ancestors h).exists_last
  refine ⟨root, r, bind_eq_ok_iff.2 ⟨chain, h, ?_⟩, hlast, hr⟩
  rw [List.getLastD_eq_getLast?, hlast]
  rfl

end Conceptual

namespace Schema

open Conceptual

variable {s : Schema} {id : ModelId} {m : Model}

/-- An entity type without a base type has a key. -/
theorem Verified.key_ne_nil (hv : s.Verified) (hm : s.conceptual.model id = .ok m)
    {e : EntityType} (he : m.entity? = some e) (hbase : e.base = none) : e.key ≠ [] := by
  have h := forM_eq_ok_iff.1 hv.keys m (mem_of_found hm)
  intro hkey
  simp only [he, hbase, hkey] at h
  cases h

/-- A type has a key exactly if the root above it is an entity type. -/
theorem Verified.keyFields_ne_nil_iff (hv : s.Verified) (hm : s.conceptual.model id = .ok m) :
    ∃ key, s.conceptual.keyFields id = .ok key ∧ (key ≠ [] ↔ s.conceptual.HasEntityRoot id) := by
  obtain ⟨chain, hchain⟩ := hv.exists_ancestors hm
  obtain ⟨root, r, hroot, -, hr, hbase⟩ := exists_root hchain
  refine ⟨_, bind_eq_ok_iff.2 ⟨root, hroot, bind_eq_ok_iff.2 ⟨r, hr, rfl⟩⟩, ?_⟩
  have hiff : s.conceptual.HasEntityRoot id ↔ r.isEntity = true := by
    constructor
    · rintro ⟨root', r', hroot', hr', hentity⟩
      cases hroot.symm.trans hroot'
      cases hr.symm.trans hr'
      exact hentity
    · exact fun hentity => ⟨root, r, hroot, hr, hentity⟩
  rw [hiff]
  cases he : r.entity? with
  | none => simp [Model.isEntity, he]
  | some e =>
    have hnone : e.base = none := by simpa [Model.base?, he] using hbase
    simpa [Model.isEntity, he] using hv.key_ne_nil hr he hnone

/-- The root above a type is an entity type exactly if every type above it is. -/
theorem Verified.hasEntityRoot_iff (hv : s.Verified) (hm : s.conceptual.model id = .ok m) :
    s.conceptual.HasEntityRoot id ↔ ∃ chain, s.conceptual.ancestors id = .ok chain ∧
      ∀ t ∈ chain, ∃ m, s.conceptual.model t = .ok m ∧ m.isEntity = true := by
  obtain ⟨chain, hchain⟩ := hv.exists_ancestors hm
  obtain ⟨root, r, hroot, hlast, hr, -⟩ := exists_root hchain
  constructor
  · rintro ⟨root', r', hroot', hr', hentity⟩
    cases hroot.symm.trans hroot'
    exact ⟨chain, hchain, fun t ht =>
      (chain_of_ancestors hchain).isEntity_of_last hlast hr' hentity ht⟩
  · rintro ⟨chain', hchain', hall⟩
    cases hchain.symm.trans hchain'
    obtain ⟨r', hr', hentity⟩ := hall root (List.mem_of_getLast? hlast)
    exact ⟨root, r', hroot, hr', hentity⟩

/-- Base types are entity types exactly if every entity type has a root that is one. -/
theorem Verified.entityBases_iff (hv : s.Verified) : s.conceptual.EntityBases ↔
    ∀ id m, s.conceptual.model id = .ok m → m.isEntity = true → s.conceptual.HasEntityRoot id := by
  constructor
  · intro hbases id m hm hentity
    obtain ⟨chain, hchain⟩ := hv.exists_ancestors hm
    refine (hv.hasEntityRoot_iff hm).2 ⟨chain, hchain, ?_⟩
    have h := chain_of_ancestors hchain
    clear hchain
    induction h generalizing m with
    | root _ _ => exact List.forall_mem_singleton.2 ⟨m, hm, hentity⟩
    | derived hm' hbase rest ih =>
      obtain ⟨b, hb⟩ := rest.exists_model rest.mem_self
      exact List.forall_mem_cons.2 ⟨⟨m, hm, hentity⟩, ih _ hb (hbases _ _ _ b hm' hbase hb)⟩
  -- a base has the same root, which is an entity type, and so has all in between
  · intro hroots id m base b hm hbase hb
    obtain ⟨chain, hchain, hall⟩ :=
      (hv.hasEntityRoot_iff hm).1 (hroots id m hm (isEntity_of_base hbase))
    cases chain_of_ancestors hchain with
    | root hm' hnone =>
      cases hm.symm.trans hm'
      cases hbase.symm.trans hnone
    | derived hm' hbase' rest =>
      cases hm.symm.trans hm'
      cases hbase.symm.trans hbase'
      obtain ⟨b', hb', hentity⟩ := hall base (List.mem_cons_of_mem _ rest.mem_self)
      cases hb.symm.trans hb'
      exact hentity

end Schema

end QueryViews
