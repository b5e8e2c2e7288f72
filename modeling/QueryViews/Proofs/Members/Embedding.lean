import QueryViews.Proofs.Schema.Resolved
import QueryViews.Members
import Mathlib.Logic.Relation

/-!
# What is embedded in a field

A field of an embedded type **nests** the fields of that type, and these may nest others. The walk
that looks for tokens (`Schema.tokens`) goes down from a field, and how deep it may go is bounded.
Where no type is embedded in itself (`Conceptual.Grounded`) the bound is never met, since the types
on the way down are different from each other (`Verified.exists_tokens`). What the walk finds are
the fields below that are tokens or nest one (`mem_tokens_iff`).
-/

namespace QueryViews

open Relation

namespace Conceptual

variable {c : Conceptual}

/-- The second field is declared by the type that the first one embeds. -/
def Nests (c : Conceptual) (f g : FieldId) : Prop :=
  ∃ declared target m, c.field f = .ok declared ∧ declared.type = .embedded target ∧
    c.model target = .ok m ∧ g ∈ m.fieldIds target

/-- The first type declares a field that embeds the second one. -/
def Embeds (c : Conceptual) (a b : ModelId) : Prop :=
  ∃ m, c.model a = .ok m ∧ ∃ f ∈ m.fields, f.type = .embedded b

/-- The field is compared for optimistic concurrency, by itself or for one nested in it. -/
def Guards (c : Conceptual) (f : FieldId) : Prop :=
  ∃ g token, ReflTransGen c.Nests f g ∧ c.field g = .ok token ∧ token.isToken = true

/-- No type that is embedded in the field, at any depth, is embedded in itself. -/
def Grounded (c : Conceptual) (f : FieldId) : Prop :=
  ∀ g declared target, ReflTransGen c.Nests f g → c.field g = .ok declared →
    declared.type = .embedded target → ¬ TransGen c.Embeds target target

/-- Whatever gets smaller from a type to those embedded in it shows that there is no cycle. -/
theorem grounded_of_rank {rank : ModelId → Nat} (h : ∀ a b, c.Embeds a b → rank b < rank a)
    (f : FieldId) : c.Grounded f := by
  have hbelow : ∀ a b, TransGen c.Embeds a b → rank b < rank a := by
    intro a b hab
    induction hab with
    | single hab => exact h _ _ hab
    | tail _ hbc ih => exact (h _ _ hbc).trans ih
  exact fun _ _ target _ _ _ hcycle => lt_irrefl _ (hbelow target target hcycle)

/-- What is nested in a field without cycles is without cycles. -/
theorem Grounded.of_nests {f g : FieldId} (h : c.Grounded f) (hg : c.Nests f g) : c.Grounded g :=
  fun i declared target hi => h i declared target (.head hg hi)

/-- A field that embeds a type makes the type that declares it embed that type. -/
theorem Embeds.of_field {f : FieldId} {declared : Field} {target : ModelId}
    (hf : c.field f = .ok declared) (htype : declared.type = .embedded target) :
    c.Embeds f.model target := by
  obtain ⟨m, hm, hdeclared⟩ := field_eq_ok_iff.1 hf
  exact ⟨m, hm, declared, List.mem_of_getElem? hdeclared, htype⟩

/-- The fields nested directly in a field. -/
def nestedFields (c : Conceptual) (declared : Field) : Except Fault (List FieldId) :=
  match declared.type with
  | .embedded target => (Model.fieldIds · target) <$> c.model target
  | _ => .ok []

/-- The fields nested in a field are those that the type it embeds declares. -/
theorem mem_nestedFields_iff {f g : FieldId} {declared : Field} {nested : List FieldId}
    (hf : c.field f = .ok declared) (h : c.nestedFields declared = .ok nested) :
    g ∈ nested ↔ c.Nests f g := by
  rw [nestedFields] at h
  constructor
  · intro hg
    split at h
    · rename_i target htype
      obtain ⟨m, hm, rfl⟩ := map_eq_ok_iff.1 h
      exact ⟨declared, target, m, hf, htype, hm, hg⟩
    · cases h
      cases hg
  · rintro ⟨declared', target, m, hf', htype, hm, hg⟩
    cases hf.symm.trans hf'
    simp only [htype, hm] at h
    cases h
    exact hg

/-- A field that guards is a token, or nests one that guards. -/
theorem guards_iff {f : FieldId} {declared : Field} (hf : c.field f = .ok declared) :
    c.Guards f ↔ declared.isToken = true ∨ ∃ g, c.Nests f g ∧ c.Guards g := by
  constructor
  · rintro ⟨g, token, hg, htoken, hmarked⟩
    rcases ReflTransGen.cases_head hg with rfl | ⟨i, hi, hig⟩
    · cases hf.symm.trans htoken
      exact .inl hmarked
    · exact .inr ⟨i, hi, g, token, hig, htoken, hmarked⟩
  · rintro (hmarked | ⟨i, hi, g, token, hig, htoken, hmarked⟩)
    · exact ⟨f, declared, .refl, hf, hmarked⟩
    · exact ⟨g, token, .head hi hig, htoken, hmarked⟩

end Conceptual

namespace Schema

variable {s : Schema} {f g : FieldId} {depth : Nat} {r : List FieldId}

/-! ## The walk -/

/-- One step down: the field itself if it is compared, and what is found in the fields nested in
it. -/
theorem tokens_succ (s : Schema) (depth : Nat) (f : FieldId) : s.tokens (depth + 1) f = do
    let declared ← s.conceptual.field f
    let nested ← s.conceptual.nestedFields declared
    let inner := (← nested.mapM (s.tokens depth)).flatten
    return if declared.isToken || !inner.isEmpty then inner ++ [f] else inner := by
  rw [tokens]
  refine bind_congr fun declared => ?_
  rw [Conceptual.nestedFields]
  cases declared.type <;> rfl

/-- What the walk does at one field. -/
theorem tokens_eq_ok_iff : s.tokens (depth + 1) f = .ok r ↔
    ∃ declared nested groups, s.conceptual.field f = .ok declared ∧
      s.conceptual.nestedFields declared = .ok nested ∧
      nested.mapM (s.tokens depth) = .ok groups ∧
      r = if declared.isToken || !groups.flatten.isEmpty then groups.flatten ++ [f]
        else groups.flatten := by
  rw [tokens_succ]
  constructor
  · intro h
    obtain ⟨declared, hf, h⟩ := bind_eq_ok_iff.1 h
    obtain ⟨nested, hnested, h⟩ := bind_eq_ok_iff.1 h
    obtain ⟨groups, hgroups, hr⟩ := bind_eq_ok_iff.1 h
    cases hr
    exact ⟨declared, nested, groups, hf, hnested, hgroups, rfl⟩
  · rintro ⟨declared, nested, groups, hf, hnested, hgroups, rfl⟩
    exact bind_eq_ok_iff.2 ⟨declared, hf, bind_eq_ok_iff.2 ⟨nested, hnested,
      bind_eq_ok_iff.2 ⟨groups, hgroups, rfl⟩⟩⟩

/-- The walk finds the fields below that are tokens or nest one. -/
theorem mem_tokens_iff (h : s.tokens depth f = .ok r) :
    g ∈ r ↔ ReflTransGen s.conceptual.Nests f g ∧ s.conceptual.Guards g := by
  induction depth generalizing f g r with
  | zero => cases h
  | succ depth ih =>
    obtain ⟨declared, nested, groups, hf, hnested, hgroups, rfl⟩ := tokens_eq_ok_iff.1 h
    have hinner : ∀ g, g ∈ groups.flatten ↔
        ∃ i, s.conceptual.Nests f i ∧ ReflTransGen s.conceptual.Nests i g ∧
          s.conceptual.Guards g := by
      intro g
      rw [List.mem_flatten]
      constructor
      · rintro ⟨group, hgroup, hg⟩
        obtain ⟨i, hi, hwalk⟩ := exists_of_mem_mapM hgroups hgroup
        exact ⟨i, (Conceptual.mem_nestedFields_iff hf hnested).1 hi, (ih hwalk).1 hg⟩
      · rintro ⟨i, hi, hg⟩
        obtain ⟨group, hgroup, hwalk⟩ :=
          exists_mem_of_mapM hgroups ((Conceptual.mem_nestedFields_iff hf hnested).2 hi)
        exact ⟨group, hgroup, (ih hwalk).2 hg⟩
    -- the field itself is found if it is marked, or if anything below it was found
    have hself : (declared.isToken || !groups.flatten.isEmpty) = true ↔ s.conceptual.Guards f := by
      rw [Conceptual.guards_iff hf, Bool.or_eq_true, Bool.not_eq_true',
        List.isEmpty_eq_false_iff_exists_mem]
      refine or_congr_right ⟨?_, ?_⟩
      · rintro ⟨g, hg⟩
        obtain ⟨i, hi, hig, j, token, hgj, htoken⟩ := (hinner g).1 hg
        exact ⟨i, hi, j, token, hig.trans hgj, htoken⟩
      · rintro ⟨i, hi, hguards⟩
        exact ⟨i, (hinner i).2 ⟨i, hi, .refl, hguards⟩⟩
    rw [ReflTransGen.cases_head_iff]
    split <;> rename_i hguards <;> rw [hself] at hguards
    · simp only [List.mem_append, hinner, List.mem_singleton]
      grind
    · simp only [hinner]
      grind

/-- Where no type is embedded in itself, the walk ends. The types entered on the way, which make up
the path, are different, so that the depth suffices. -/
theorem Verified.exists_tokens_of_path (hv : s.Verified) {declared : Field}
    (hf : s.conceptual.field f = .ok declared) (hgrounded : s.conceptual.Grounded f)
    {path : List ModelId} (hnodup : path.Nodup)
    (hdeclared : ∀ t ∈ path, ∃ m, s.conceptual.model t = .ok m)
    (habove : ∀ t ∈ path, ReflTransGen s.conceptual.Embeds t f.model)
    (hdepth : path.length + depth = s.conceptual.models.length + 1) :
    ∃ r, s.tokens depth f = .ok r := by
  -- on the depth left: with the types met so far, which are different, it adds up to all types
  induction depth generalizing f declared path with
  | zero =>
    have hlength := Conceptual.length_le_of_nodup hnodup hdeclared
    omega
  | succ depth ih =>
    obtain ⟨owner, howner, hplace⟩ := Conceptual.field_eq_ok_iff.1 hf
    have hnested : ∃ nested, s.conceptual.nestedFields declared = .ok nested ∧
        ∀ g ∈ nested, ∃ r, s.tokens depth g = .ok r := by
      rw [Conceptual.nestedFields]
      split
      · rename_i target htype
        obtain ⟨t, ht, -⟩ := hv.exists_embedded howner (List.mem_of_getElem? hplace) htype
        have hembeds : s.conceptual.Embeds f.model target := .of_field hf htype
        refine ⟨_, map_eq_ok_iff.2 ⟨t, ht, rfl⟩, fun g hg => ?_⟩
        obtain ⟨hmodel, declared', hg'⟩ := Conceptual.exists_field_of_mem ht hg
        -- a type met before would embed itself
        have hnew : target ∉ path := fun hmem =>
          hgrounded f declared target .refl hf htype (.tail' (habove target hmem) hembeds)
        have hdepth' : (target :: path).length + depth = s.conceptual.models.length + 1 := by
          rw [List.length_cons]
          omega
        exact ih hg' (hgrounded.of_nests ⟨declared, target, t, hf, htype, ht, hg⟩)
          (List.nodup_cons.2 ⟨hnew, hnodup⟩) (List.forall_mem_cons.2 ⟨⟨t, ht⟩, hdeclared⟩)
          (List.forall_mem_cons.2 ⟨hmodel ▸ .refl, fun t' ht' =>
            hmodel ▸ (habove t' ht').tail hembeds⟩) hdepth'
      · exact ⟨[], rfl, List.forall_mem_nil _⟩
    obtain ⟨nested, hnested, hwalks⟩ := hnested
    obtain ⟨groups, hgroups⟩ := exists_mapM_eq_ok hwalks
    exact ⟨_, tokens_eq_ok_iff.2 ⟨declared, nested, groups, hf, hnested, hgroups, rfl⟩⟩

/-- The bound on the walk is never met where no type is embedded in itself. -/
theorem Verified.exists_tokens (hv : s.Verified) {declared : Field}
    (hf : s.conceptual.field f = .ok declared) (hgrounded : s.conceptual.Grounded f) :
    ∃ r, s.tokens (s.conceptual.models.length + 1) f = .ok r :=
  hv.exists_tokens_of_path hf hgrounded List.nodup_nil (List.forall_mem_nil _)
    (List.forall_mem_nil _) (Nat.zero_add _)

end Schema

end QueryViews
