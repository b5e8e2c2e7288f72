import QueryViews.Proofs.Members.Matters

/-!
# Where the walk into embedded types ends

Nothing that verification checks keeps an embedded type from being embedded in itself. Where one is,
the search for tokens goes round and round: it ends at a field exactly if no type below the field is
embedded in itself, and then it never goes deeper than there are types
(`Schema.Built.embedding_ends_iff`). So the search ends everywhere only in those built schemas in
which embedding has no cycle, and there are others (`Cabinet.folder_endless`).
-/

namespace QueryViews

open Relation

namespace Conceptual

variable {c : Conceptual} {f : FieldId}

/-- A cycle below a field is a cycle below a field nested in it. -/
theorem grounded_of_forall_nests (h : ∀ g, c.Nests f g → c.Grounded g) : c.Grounded f := by
  intro g declared target hfg hg htype hcycle
  rcases ReflTransGen.cases_head hfg with rfl | ⟨i, hi, hig⟩
  · -- what the field embeds is on the cycle itself: one of its own fields leads on
    obtain ⟨next, hstep, hback⟩ := TransGen.head'_iff.1 hcycle
    obtain ⟨m, hm, inner, hinner, hnext⟩ := hstep
    obtain ⟨index, hindex⟩ := List.mem_iff_getElem?.1 hinner
    have hplace : index < m.fields.length := (List.getElem?_eq_some_iff.1 hindex).1
    have hnests : c.Nests f ⟨target, index⟩ :=
      ⟨declared, target, m, hg, htype, hm, Model.mem_fieldIds_iff.2 ⟨rfl, hplace⟩⟩
    exact h _ hnests _ inner next .refl (field_eq_ok_iff.2 ⟨m, hm, hindex⟩) hnext
      (.tail' hback ⟨m, hm, inner, hinner, hnext⟩)
  · exact h i hi g declared target hig hg htype hcycle

/-- Below every field there is no cycle exactly if there is none at all. -/
theorem forall_grounded_iff :
    (∀ f declared, c.field f = .ok declared → c.Grounded f) ↔ ∀ t, ¬ TransGen c.Embeds t t := by
  constructor
  · intro h t hcycle
    obtain ⟨next, hstep, hback⟩ := TransGen.head'_iff.1 hcycle
    obtain ⟨m, hm, inner, hinner, hnext⟩ := hstep
    obtain ⟨index, hindex⟩ := List.mem_iff_getElem?.1 hinner
    have hfield : c.field ⟨t, index⟩ = .ok inner := field_eq_ok_iff.2 ⟨m, hm, hindex⟩
    exact h _ _ hfield _ inner next .refl hfield hnext (.tail' hback ⟨m, hm, inner, hinner, hnext⟩)
  · exact fun h f _ _ _ _ target _ _ _ => h target

end Conceptual

namespace Schema

variable {s : Schema} {f : FieldId} {depth : Nat} {r : List FieldId}

/-- A walk that ends finds the same when it may go deeper. -/
theorem tokens_mono (h : s.tokens depth f = .ok r) {deeper : Nat} (hle : depth ≤ deeper) :
    s.tokens deeper f = .ok r := by
  induction depth generalizing f r deeper with
  | zero => cases h
  | succ depth ih =>
    obtain ⟨deeper, rfl⟩ := Nat.exists_eq_succ_of_ne_zero (Nat.ne_zero_of_lt hle)
    obtain ⟨declared, nested, groups, hf, hnested, hgroups, rfl⟩ := tokens_eq_ok_iff.1 h
    refine tokens_eq_ok_iff.2 ⟨declared, nested, groups, hf, hnested, ?_, rfl⟩
    exact mapM_eq_ok_iff.2 ((mapM_eq_ok_iff.1 hgroups).imp fun _ _ hwalk =>
      ih hwalk (Nat.le_of_succ_le_succ hle))

/-- Where a walk ends, no type below is embedded in itself. -/
theorem grounded_of_tokens (h : s.tokens depth f = .ok r) : s.conceptual.Grounded f := by
  induction depth generalizing f r with
  | zero => cases h
  | succ depth ih =>
    obtain ⟨declared, nested, groups, hf, hnested, hgroups, -⟩ := tokens_eq_ok_iff.1 h
    refine Conceptual.grounded_of_forall_nests fun g hg => ?_
    obtain ⟨_, -, hwalk⟩ :=
      exists_mem_of_mapM hgroups ((Conceptual.mem_nestedFields_iff hf hnested).2 hg)
    exact ih hwalk

/-- In a verified schema a walk ends exactly where no type below is embedded in itself. -/
theorem Verified.exists_tokens_iff (hv : s.Verified) {declared : Field}
    (hf : s.conceptual.field f = .ok declared) :
    (∃ depth r, s.tokens depth f = .ok r) ↔ s.conceptual.Grounded f := by
  constructor
  · rintro ⟨depth, r, h⟩
    exact grounded_of_tokens h
  · exact fun h => ⟨_, hv.exists_tokens hf h⟩

/-- The bound on the walk never decides the answer. -/
theorem Verified.tokens_of_ends (hv : s.Verified) {declared : Field}
    (hf : s.conceptual.field f = .ok declared) (h : s.tokens depth f = .ok r) :
    s.tokens (s.conceptual.models.length + 1) f = .ok r := by
  obtain ⟨r', h'⟩ := hv.exists_tokens hf (grounded_of_tokens h)
  rcases Nat.le_total depth (s.conceptual.models.length + 1) with hle | hle
  · exact tokens_mono h hle
  · rw [h', ← Except.ok.inj ((tokens_mono h' hle).symm.trans h)]

/-- The tokens of a type are found exactly if the walk ends at each of its fields. -/
theorem Verified.exists_tokenMembers_iff (hv : s.Verified) {type : ModelId} {m : Model}
    (hm : s.conceptual.model type = .ok m) : (∃ l, s.tokenMembers type = .ok l) ↔
      ∃ fields, s.conceptual.allFields type = .ok fields ∧
        ∀ f ∈ fields, s.conceptual.Grounded f := by
  constructor
  · rintro ⟨l, h⟩
    obtain ⟨fields, hfields, h⟩ := bind_eq_ok_iff.1 h
    obtain ⟨groups, hgroups, -⟩ := bind_eq_ok_iff.1 h
    refine ⟨fields, hfields, fun f hf => ?_⟩
    obtain ⟨_, -, hwalk⟩ := exists_mem_of_mapM hgroups hf
    exact grounded_of_tokens hwalk
  · rintro ⟨fields, hfields, hgrounded⟩
    obtain ⟨l, h, -⟩ := hv.exists_tokenMembers hm (fun fields' hfields' => by
      cases hfields.symm.trans hfields'
      exact hgrounded) ⟨⟨0⟩, 0⟩ .tracking
    exact ⟨l, h⟩

/-- Members that matter are found only if the tokens among them are. -/
theorem exists_tokenMembers_of_interestingMembers {set : EntitySetId} {type : ModelId}
    {scenario : Scenario} {members : List Member}
    (h : s.interestingMembers set type scenario = .ok members) :
    ∃ l, s.tokenMembers type = .ok l := by
  obtain ⟨element, -, h⟩ := bind_eq_ok_iff.1 h
  obtain ⟨assignable, -, h⟩ := bind_eq_ok_iff.1 h
  cases assignable with
  | false =>
    obtain ⟨_, -, h⟩ := bind_eq_ok_iff.1 h
    obtain ⟨_, -, h⟩ := bind_eq_ok_iff.1 h
    cases h
  | true =>
    obtain ⟨key, -, h⟩ := bind_eq_ok_iff.1 h
    obtain ⟨ends, -, h⟩ := bind_eq_ok_iff.1 h
    obtain ⟨tokens, htokens, -⟩ := bind_eq_ok_iff.1 h
    exact ⟨tokens, lift_eq_ok_iff.1 htokens⟩

/-- **Where the search for tokens ends.** In a built schema

* the search ends at a field exactly if no type below the field is embedded in itself; a bound by
  the number of types takes nothing away from it;
* for a type, it ends exactly if it ends at each of the type's fields, and where it does not end no
  question which members of the type matter is answered;
* it ends at every field exactly if embedding has no cycle. -/
theorem Built.embedding_ends_iff (hs : s.Built) :
    (∀ f declared, s.conceptual.field f = .ok declared →
      ((∃ depth r, s.tokens depth f = .ok r) ↔ s.conceptual.Grounded f) ∧
      ∀ depth r, s.tokens depth f = .ok r →
        s.tokens (s.conceptual.models.length + 1) f = .ok r) ∧
    (∀ type m, s.conceptual.model type = .ok m →
      ((∃ l, s.tokenMembers type = .ok l) ↔ ∃ fields, s.conceptual.allFields type = .ok fields ∧
        ∀ f ∈ fields, s.conceptual.Grounded f) ∧
      ∀ set scenario members, s.interestingMembers set type scenario = .ok members →
        ∃ l, s.tokenMembers type = .ok l) ∧
    ((∀ f declared, s.conceptual.field f = .ok declared → ∃ depth r, s.tokens depth f = .ok r) ↔
      ∀ t, ¬ TransGen s.conceptual.Embeds t t) := by
  have hv := hs.verified
  refine ⟨fun f declared hf => ⟨hv.exists_tokens_iff hf, fun depth r => hv.tokens_of_ends hf⟩,
    fun type m hm => ⟨hv.exists_tokenMembers_iff hm, fun set scenario members =>
      exists_tokenMembers_of_interestingMembers⟩, ?_⟩
  rw [← Conceptual.forall_grounded_iff]
  exact forall_congr' fun f => forall_congr' fun declared => forall_congr' fun hf =>
    hv.exists_tokens_iff hf

/-- The search ends at every field of the staff. -/
theorem staff_tokens_end : Staff.schema.Built ∧
    ∀ f declared, Staff.schema.conceptual.field f = .ok declared →
      ∃ depth r, Staff.schema.tokens depth f = .ok r := by
  obtain ⟨hfields, -, -⟩ := Built.embedding_ends_iff Staff.built
  exact ⟨Staff.built, fun f declared hf =>
    (hfields f declared hf).1.2 (Conceptual.grounded_of_rank Staff.embeds_later f)⟩

end Schema

namespace Cabinet

/-- A folder with a tree of nodes, each of which embeds an edge that embeds the next node. -/
def declarations : List Declaration := [
  .entity "Folder", .field .key ⟨0⟩ "Id" .int32, .embedded "Node", .embedded "Edge",
  .embeddedField ⟨0⟩ "Tree" ⟨1⟩, .embeddedField ⟨1⟩ "Out" ⟨2⟩, .embeddedField ⟨2⟩ "Target" ⟨1⟩,
  .container "Disk", .entitySet ⟨0⟩ "Folders" ⟨0⟩]

/-- The schema that they make. -/
def schema : Schema where
  conceptual := ⟨[
    ⟨"Folder", [⟨"Id", .scalar .int32, false, false⟩, ⟨"Tree", .embedded ⟨1⟩, false, false⟩],
      .entity ⟨none, false, [⟨⟨0⟩, 0⟩]⟩⟩,
    ⟨"Node", [⟨"Out", .embedded ⟨2⟩, false, false⟩], .embedded⟩,
    ⟨"Edge", [⟨"Target", .embedded ⟨1⟩, false, false⟩], .embedded⟩], [],
    [⟨"Disk", [⟨"Folders", ⟨0⟩⟩], []⟩]⟩
  store := ⟨[], []⟩
  mapping := ⟨[]⟩

/-- A node embeds itself, by way of an edge. -/
theorem node_cycle : TransGen schema.conceptual.Embeds ⟨1⟩ ⟨1⟩ := by
  have hnode : schema.conceptual.Embeds ⟨1⟩ ⟨2⟩ := ⟨_, rfl, _, List.mem_cons_self, rfl⟩
  have hedge : schema.conceptual.Embeds ⟨2⟩ ⟨1⟩ := ⟨_, rfl, _, List.mem_cons_self, rfl⟩
  exact .tail (.single hnode) hedge

/-- A schema that builds although nodes are embedded in themselves: no depth is enough to find the
tokens below the tree of a folder. -/
theorem folder_endless : schema.Built ∧ TransGen schema.conceptual.Embeds ⟨1⟩ ⟨1⟩ ∧
    schema.conceptual.allFields ⟨0⟩ = .ok [⟨⟨0⟩, 0⟩, ⟨⟨0⟩, 1⟩] ∧
    ∀ depth r, schema.tokens depth ⟨⟨0⟩, 1⟩ ≠ .ok r := by
  refine ⟨⟨declarations, _, rfl⟩, node_cycle, rfl, fun depth r h => ?_⟩
  exact Schema.grounded_of_tokens h ⟨⟨0⟩, 1⟩ ⟨"Tree", .embedded ⟨1⟩, false, false⟩ ⟨1⟩ .refl rfl rfl
    node_cycle

end Cabinet

end QueryViews
