import QueryViews.Proofs.Schema.Keys
import QueryViews.Proofs.Schema.Roots

/-!
# What a type inherits

A type has a root, a key and fields, and each of them is found by a walk of its own that starts at
the type. Walks from different types of one hierarchy agree: the chain of a type above is what is
left of the chain from there on, so the root and the key are those of the type above, and its fields
come first among the fields (`Schema.Built.inherits`).
-/

namespace QueryViews

/-- A model has different ids for its fields. -/
theorem Model.nodup_fieldIds (m : Model) (id : ModelId) : (m.fieldIds id).Nodup :=
  List.nodup_range.map fun _ _ h => congrArg FieldId.index h

namespace Conceptual

variable {c : Conceptual} {id ancestor root : ModelId} {fields : List FieldId}

/-! ## Fields along a chain -/

/-- The fields that a type declares itself; none if there is no such type. -/
def ownFields (c : Conceptual) (id : ModelId) : List FieldId :=
  match c.model id with
  | .ok m => m.fieldIds id
  | .error _ => []

/-- The own fields of a type that is there. -/
theorem ownFields_of_model {m : Model} (hm : c.model id = .ok m) :
    c.ownFields id = m.fieldIds id := by
  rw [ownFields, hm]

theorem nodup_ownFields : (c.ownFields id).Nodup := by
  rw [ownFields]
  split
  · exact Model.nodup_fieldIds _ id
  · exact List.nodup_nil

/-- An own field has the id of its type. -/
theorem model_of_mem_ownFields {f : FieldId} (h : f ∈ c.ownFields id) : f.model = id := by
  rw [ownFields] at h
  split at h
  · exact (Model.mem_fieldIds_iff.1 h).1
  · cases h

/-- The fields of a type are those along its chain, from the root down. -/
theorem allFields_eq_ok_iff : c.allFields id = .ok fields ↔
    ∃ chain, c.ancestors id = .ok chain ∧ fields = chain.reverse.flatMap c.ownFields := by
  -- type by type the groups are the fields that the types declare themselves
  have hgroups {owners : List ModelId} {groups : List (List FieldId)}
      (h : (owners.mapM fun owner => do return (← c.model owner).fieldIds owner) =
        (.ok groups : Except Fault _)) : groups.flatten = owners.flatMap c.ownFields := by
    have hown : (groups.map fun ids => ids) = owners.map c.ownFields :=
      map_eq_of_mapM h fun owner ids hids => by
        obtain ⟨m, hm, hr⟩ := bind_eq_ok_iff.1 hids
        cases hr
        exact (ownFields_of_model hm).symm
    rw [List.flatMap_def, ← hown, List.map_id']
  constructor
  · intro h
    obtain ⟨chain, hchain, h⟩ := bind_eq_ok_iff.1 h
    obtain ⟨groups, hmapM, hr⟩ := bind_eq_ok_iff.1 h
    cases hr
    exact ⟨chain, hchain, hgroups hmapM⟩
  · rintro ⟨chain, hchain, rfl⟩
    obtain ⟨fields, hfields⟩ := exists_allFields hchain
    rw [hfields]
    obtain ⟨chain', hchain', h⟩ := bind_eq_ok_iff.1 hfields
    obtain ⟨groups, hmapM, hr⟩ := bind_eq_ok_iff.1 h
    cases hr
    cases hchain.symm.trans hchain'
    rw [hgroups hmapM]

/-- No field is there twice: its type is on the chain once, and has it once. -/
theorem nodup_allFields (h : c.allFields id = .ok fields) : fields.Nodup := by
  obtain ⟨chain, hchain, rfl⟩ := allFields_eq_ok_iff.1 h
  refine List.nodup_flatMap.2 ⟨fun t _ => nodup_ownFields, ?_⟩
  have hnodup : chain.reverse.Nodup := List.nodup_reverse.2 (chain_of_ancestors hchain).nodup
  refine hnodup.imp fun {t u} hne f hft hfu => hne ?_
  rw [← model_of_mem_ownFields hft, model_of_mem_ownFields hfu]

/-- The fields of a type above come first. -/
theorem exists_allFields_isPrefix (h : c.isAssignable id ancestor = .ok true) :
    ∃ inherited fields, c.allFields ancestor = .ok inherited ∧ c.allFields id = .ok fields ∧
      inherited <+: fields := by
  obtain ⟨chain, hchain, ha⟩ := isAssignable_eq_true_iff.1 h
  obtain ⟨above, habove, below, rfl⟩ := exists_ancestors_suffix hchain ha
  refine ⟨_, _, allFields_eq_ok_iff.2 ⟨above, habove, rfl⟩,
    allFields_eq_ok_iff.2 ⟨below ++ above, hchain, rfl⟩, ?_⟩
  rw [List.reverse_append, List.flatMap_append]
  exact List.prefix_append _ _

end Conceptual

namespace Schema

/-- **Inheritance.** In a built schema a type has the root and the key of every type above it, and
the fields of that type come first among its own. Its fields are what it and the types above it
declare, each of them once, and the fields of the key are among those of the root. -/
theorem Built.inherits {s : Schema} (hs : s.Built) {id ancestor : ModelId}
    (h : s.conceptual.isAssignable id ancestor = .ok true) :
    (∃ root, s.conceptual.root id = .ok root ∧ s.conceptual.root ancestor = .ok root ∧
      ∃ key rootFields, s.conceptual.keyFields id = .ok key ∧
        s.conceptual.keyFields ancestor = .ok key ∧ s.conceptual.allFields root = .ok rootFields ∧
        ∀ f ∈ key, f.model = root ∧ f ∈ rootFields) ∧
    ∃ inherited fields, s.conceptual.allFields ancestor = .ok inherited ∧
      s.conceptual.allFields id = .ok fields ∧ inherited <+: fields ∧ fields.Nodup ∧
      ∀ f, f ∈ fields ↔ s.conceptual.isAssignable id f.model = .ok true ∧
        ∃ declared, s.conceptual.field f = .ok declared := by
  constructor
  · obtain ⟨root, hroot, hroot'⟩ := Conceptual.root_eq_of_isAssignable h
    obtain ⟨chain, hchain, -⟩ := Conceptual.isAssignable_eq_true_iff.1 h
    obtain ⟨key, hkey⟩ := Conceptual.exists_keyFields hchain
    obtain ⟨rootFields, fields, hrootFields, -⟩ :=
      Conceptual.exists_allFields_isPrefix (Conceptual.isAssignable_root hroot)
    refine ⟨root, hroot, hroot', key, rootFields, hkey,
      (Conceptual.keyFields_eq_of_isAssignable h).symm.trans hkey, hrootFields, fun f hf => ?_⟩
    obtain ⟨hmodel, hdeclared⟩ := hs.exists_root_of_mem_key hkey hf
    obtain rfl := Except.ok.inj (hmodel.symm.trans hroot)
    obtain ⟨rootChain, hrootChain, -⟩ := Conceptual.allFields_eq_ok_iff.1 hrootFields
    exact ⟨rfl, (Conceptual.mem_allFields_iff hrootFields).2
      ⟨Conceptual.isAssignable_self hrootChain, hdeclared⟩⟩
  · obtain ⟨inherited, fields, hinherited, hfields, hprefix⟩ :=
      Conceptual.exists_allFields_isPrefix h
    exact ⟨inherited, fields, hinherited, hfields, hprefix, Conceptual.nodup_allFields hfields,
      fun f => Conceptual.mem_allFields_iff hfields⟩

end Schema

/-! ## A fleet -/

namespace Fleet

/-- Taxis are cars, and cars are vehicles; the lowest type is declared first, and the type above it
gets a field last. -/
def declarations : List Declaration := [
  .derivedEntity "Taxi" ⟨1⟩, .derivedEntity "Car" ⟨2⟩, .entity "Vehicle",
  .field .plain ⟨0⟩ "Licence" .text, .field .key ⟨2⟩ "Country" .text, .field .key ⟨2⟩ "Plate" .text,
  .field .nullable ⟨2⟩ "Colour" .text, .field .plain ⟨1⟩ "Doors" .int32]

/-- The schema that they make. -/
def schema : Schema where
  conceptual := ⟨[
    ⟨"Taxi", [⟨"Licence", .scalar .text, false, false⟩], .entity ⟨some ⟨1⟩, false, []⟩⟩,
    ⟨"Car", [⟨"Doors", .scalar .int32, false, false⟩], .entity ⟨some ⟨2⟩, false, []⟩⟩,
    ⟨"Vehicle", [⟨"Country", .scalar .text, false, false⟩, ⟨"Plate", .scalar .text, false, false⟩,
      ⟨"Colour", .scalar .text, true, false⟩], .entity ⟨none, false, [⟨⟨2⟩, 0⟩, ⟨⟨2⟩, 1⟩]⟩⟩],
    [], []⟩
  store := ⟨[], []⟩
  mapping := ⟨[]⟩

theorem built : schema.Built := ⟨declarations, _, rfl⟩

/-- A taxi has the key of a car, which is that of a vehicle, and first the fields of a car. -/
theorem taxi_inherits :
    schema.Built ∧ schema.conceptual.isAssignable ⟨0⟩ ⟨1⟩ = .ok true ∧
    schema.conceptual.root ⟨0⟩ = .ok ⟨2⟩ ∧ schema.conceptual.root ⟨1⟩ = .ok ⟨2⟩ ∧
    schema.conceptual.keyFields ⟨0⟩ = .ok [⟨⟨2⟩, 0⟩, ⟨⟨2⟩, 1⟩] ∧
    ∃ inherited fields, schema.conceptual.allFields ⟨1⟩ = .ok inherited ∧
      schema.conceptual.allFields ⟨0⟩ = .ok fields ∧ inherited <+: fields ∧ fields.Nodup ∧
      (⟨⟨1⟩, 0⟩ : FieldId) ∈ fields := by
  have habove : schema.conceptual.isAssignable ⟨0⟩ ⟨1⟩ = .ok true := rfl
  obtain ⟨⟨root, hroot, hroot', key, -, hkey, -⟩, inherited, fields, hinherited, hfields, hprefix,
    hnodup, hmem⟩ := built.inherits habove
  cases hroot
  cases hkey
  exact ⟨built, habove, rfl, hroot', rfl, inherited, fields, hinherited, hfields, hprefix, hnodup,
    (hmem ⟨⟨1⟩, 0⟩).2 ⟨rfl, _, rfl⟩⟩

end Fleet

end QueryViews
