import QueryViews.Closure.Hash
import QueryViews.Proofs.Closure.Faithful
import QueryViews.Proofs.Renaming.Closure
import QueryViews.Proofs.Renaming.Content

/-!
# Hashes under a renaming

The closure hash of a container does not depend on ids, nor on the order in which anything was
declared, where order carries no meaning. Schemas that correspond have contents that say the same,
and these have the same bytes.
-/

namespace QueryViews

namespace Renaming

variable {ρ : Renaming} {s s' : Schema}

/-- The types of a closure say the same, in whatever order the walk met them. -/
theorem Corresponds.typeContents (h : ρ.Corresponds s s') {l l' : List Element}
    (hl : (l.map ρ.element).Perm l') :
    Agree (Rearranged Content.TypeContent.Same) ((l.filterMap Element.model?).mapM s.typeContent)
      ((l'.filterMap Element.model?).mapM s'.typeContent) := by
  refine Agree.mapM (rearranged_map_iff.2 (models_perm hl)) ?_
  rintro id _ rfl
  exact h.typeContent id

/-- The associations of a closure say the same, in whatever order the walk met them. -/
theorem Corresponds.associationContents (h : ρ.Corresponds s s') {l l' : List Element}
    (hl : (l.map ρ.element).Perm l') :
    Agree (Rearranged Content.Association.Same)
      ((l.filterMap Element.association?).mapM s.associationContent)
      ((l'.filterMap Element.association?).mapM s'.associationContent) := by
  refine Agree.mapM (rearranged_map_iff.2 (associations_perm hl)) ?_
  rintro id _ rfl
  exact h.associationContent id

/-- A pair of containers says the same. -/
theorem Corresponds.pairContent (h : ρ.Corresponds s s') {m m' : QueryViews.ContainerMapping}
    (hm : ρ.ContainerMapping m m') :
    Agree Content.Same (s.pairContent m) (s'.pairContent m') := by
  rw [Schema.pairContent, Schema.pairContent, ← hm.conceptual, ← hm.store]
  refine (h.container m.conceptual).given.bind fun c c' hc => ?_
  obtain ⟨hname, hc, hc'⟩ := hc
  refine (h.store m.store).bind fun st st' hst => ?_
  -- renamed, the sets of one schema are those of the other in some order
  have hsets := rearranged_map_iff.1 (h.entitySets hc hc')
  refine (agree_mapM_perm h.entitySetContent hsets).bind fun _ _ he => ?_
  have hassociationSets := rearranged_map_iff.1 (h.associationSets hc hc')
  refine (agree_mapM_perm h.associationSetContent hassociationSets).bind fun _ _ has => ?_
  refine (h.closure hc hc').bind fun l l' hl => ?_
  refine (h.typeContents hl).bind fun _ _ ht => ?_
  refine (h.associationContents hl).bind fun _ _ ha => ?_
  refine (h.tablesIn m.store).bind fun tables tables' htables => ?_
  refine (Agree.mapM hm.extents fun _ _ => h.extentContent).bind fun _ _ hx => .ok ?_
  -- tables are told without their ids
  have hcontents : Rearranged Content.Table.Same
      (tables.map fun p => ⟨p.2.name, p.2.columns⟩)
      (tables'.map fun p => ⟨p.2.name, p.2.columns⟩) := by
    rw [Rearranged, ← Multiset.map_coe, ← Multiset.map_coe, Multiset.rel_map]
    exact htables.mono fun p _ p' _ hp => ⟨hp.2.1.name, hp.2.2⟩
  exact ⟨hname, hst.name, he, has, ht, ha, hcontents, hx⟩

/-- Containers that are mapped alike say the same; if neither is mapped, neither says anything. -/
theorem Carries.content {id : ContainerId} (h : ρ.Carries s s' id) :
    Agree (Option.Rel Content.Same) (s.content id) (s'.content (ρ.container id)) := by
  have hmapping := h.mapping
  rw [Schema.content, Schema.content]
  generalize s.mapping.container? id = m at hmapping
  generalize s'.mapping.container? (ρ.container id) = m' at hmapping
  cases hmapping with
  | none => exact .ok .none
  | some hm => exact (h.pairContent hm).bind fun _ _ hc => .ok (.some hc)

end Renaming

/-! ## The shop in two orders -/

namespace Shop

/-- The first and the second change places; all that comes later stays where it is. -/
def swapIndex : Nat ≃ Nat := Equiv.swap 0 1

/-- The two types of the shop change places. -/
def swapModel : ModelId ≃ ModelId where
  toFun id := ⟨swapIndex id.index⟩
  invFun id := ⟨swapIndex id.index⟩
  left_inv id := by simp [swapIndex]
  right_inv id := by simp [swapIndex]

/-- The two tables of the shop change places. -/
def swapTable : TableId ≃ TableId where
  toFun id := ⟨swapIndex id.index⟩
  invFun id := ⟨swapIndex id.index⟩
  left_inv id := by simp [swapIndex]
  right_inv id := by simp [swapIndex]

/-- Types, their sets and their tables change places. -/
def swap : Renaming where
  model := swapModel
  field := {
    toFun := fun id => ⟨swapModel id.model, id.index⟩
    invFun := fun id => ⟨swapModel.symm id.model, id.index⟩
    left_inv := fun id => by simp
    right_inv := fun id => by simp }
  association := Equiv.refl _
  container := Equiv.refl _
  entitySet := {
    toFun := fun id => ⟨id.container, swapIndex id.index⟩
    invFun := fun id => ⟨id.container, swapIndex id.index⟩
    left_inv := fun id => by simp [swapIndex]
    right_inv := fun id => by simp [swapIndex] }
  associationSet := Equiv.refl _
  store := Equiv.refl _
  table := swapTable
  column := {
    toFun := fun id => ⟨swapTable id.table, id.index⟩
    invFun := fun id => ⟨swapTable.symm id.table, id.index⟩
    left_inv := fun id => by simp
    right_inv := fun id => by simp }
  model_field _ := rfl
  container_entitySet _ := rfl
  container_associationSet _ := rfl
  table_column _ := rfl

/-! What comes later stays where it is. -/

theorem swapIndex_add_two (n : Nat) : swapIndex (n + 2) = n + 2 :=
  Equiv.swap_apply_of_ne_of_ne (by omega) (by omega)

theorem swap_model (n : Nat) : swap.model ⟨n + 2⟩ = ⟨n + 2⟩ :=
  congrArg ModelId.mk (swapIndex_add_two n)

theorem swap_table (n : Nat) : swap.table ⟨n + 2⟩ = ⟨n + 2⟩ :=
  congrArg TableId.mk (swapIndex_add_two n)

theorem swap_field (n i : Nat) : swap.field ⟨⟨n + 2⟩, i⟩ = ⟨⟨n + 2⟩, i⟩ :=
  congrArg (FieldId.mk · i) (swap_model n)

theorem swap_column (n i : Nat) : swap.column ⟨⟨n + 2⟩, i⟩ = ⟨⟨n + 2⟩, i⟩ :=
  congrArg (ColumnId.mk · i) (swap_table n)

theorem swap_entitySet (id : ContainerId) (n : Nat) : swap.entitySet ⟨id, n + 2⟩ = ⟨id, n + 2⟩ :=
  congrArg (EntitySetId.mk id) (swapIndex_add_two n)

/-- The shop declared in one order is the renamed shop declared in the other. -/
theorem corresponds : swap.Corresponds (schema "Item" "Tag") (schema "Tag" "Item") where
  model
    | ⟨0⟩ => .ok ⟨rfl, rfl⟩
    | ⟨1⟩ => .ok ⟨rfl, rfl⟩
    | ⟨n + 2⟩ => swap_model n ▸ .error _ _
  field
    | ⟨⟨0⟩, 0⟩ => .ok rfl
    | ⟨⟨0⟩, _ + 1⟩ => .error _ _
    | ⟨⟨1⟩, 0⟩ => .ok rfl
    | ⟨⟨1⟩, _ + 1⟩ => .error _ _
    | ⟨⟨n + 2⟩, i⟩ => swap_field n i ▸ .error _ _
  association := fun _ => .error _ _
  container
    | ⟨0⟩ => .ok rfl
    | ⟨_ + 1⟩ => .error _ _
  entitySet
    | ⟨⟨0⟩, 0⟩ => .ok rfl
    | ⟨⟨0⟩, 1⟩ => .ok rfl
    | ⟨⟨0⟩, n + 2⟩ => swap_entitySet ⟨0⟩ n ▸ .error _ _
    | ⟨⟨_ + 1⟩, _⟩ => .error _ _
  associationSet
    | ⟨⟨0⟩, _⟩ => .error _ _
    | ⟨⟨_ + 1⟩, _⟩ => .error _ _
  store
    | ⟨0⟩ => .ok ⟨rfl, .swap _ _ _⟩
    | ⟨_ + 1⟩ => .error _ _
  table
    | ⟨0⟩ => .ok ⟨rfl, rfl⟩
    | ⟨1⟩ => .ok ⟨rfl, rfl⟩
    | ⟨n + 2⟩ => swap_table n ▸ .error _ _
  column
    | ⟨⟨0⟩, 0⟩ => .ok rfl
    | ⟨⟨0⟩, _ + 1⟩ => .error _ _
    | ⟨⟨1⟩, 0⟩ => .ok rfl
    | ⟨⟨1⟩, _ + 1⟩ => .error _ _
    | ⟨⟨n + 2⟩, i⟩ => swap_column n i ▸ .error _ _

/-- The mapping of a type to its table goes to that of the other type. -/
theorem keyMapping_corresponds (model : ModelId) (table : TableId) :
    swap.TypeMapping (keyMapping model table)
      (keyMapping (swap.model model) (swap.table table)) where
  types := .refl _
  isOfTypes := .refl _
  fragments := .of_forall₂ (.cons ⟨rfl, .of_forall₂ (.cons (.scalar _) .nil), .refl _⟩ .nil)

/-- The mapping of the shop is carried along. -/
theorem carries : swap.Carries (schema "Item" "Tag") (schema "Tag" "Item") ⟨0⟩ where
  toCorresponds := corresponds
  mapping := by
    refine .some ⟨rfl, rfl, rearranged_iff.2 ⟨_, .cons ?_ (.cons ?_ .nil), .swap _ _ _⟩⟩
    · exact ⟨rfl, rfl, .refl _, .of_forall₂ (.cons (keyMapping_corresponds _ _) .nil), .zero⟩
    · exact ⟨rfl, rfl, .refl _, .of_forall₂ (.cons (keyMapping_corresponds _ _) .nil), .zero⟩

end Shop

/-! ## Invariance -/

namespace Renaming

variable {ρ : Renaming} {s s' : Schema}

/-- **Hashes do not depend on declaration order or ids.** The hash of a container and that of the
container it corresponds to are the same, if they can be computed, and neither can be if the other
one cannot. -/
theorem compute_agree {id : ContainerId} (h : ρ.Carries s s' id) :
    Agree (· = ·) (ClosureHash.compute s id) (ClosureHash.compute s' (ρ.container id)) := by
  refine h.content.bind fun c c' hc => .ok ?_
  cases hc with
  | none => rfl
  | some hsame => exact congrArg some hsame.hash_eq

/-- The shop has a hash, the same in either order. -/
theorem shop_hash_eq :
    Shop.swap.Carries (Shop.schema "Item" "Tag") (Shop.schema "Tag" "Item") ⟨0⟩ ∧
    ∃ h, ClosureHash.compute (Shop.schema "Item" "Tag") ⟨0⟩ = .ok (some h) ∧
      ClosureHash.compute (Shop.schema "Tag" "Item") ⟨0⟩ = .ok (some h) := by
  have hcompute := ClosureHash.compute_of_content Shop.content_eq
  obtain ⟨_, hreordered, rfl⟩ := (compute_agree Shop.carries).exists_ok hcompute
  exact ⟨Shop.carries, _, hcompute, hreordered⟩

end Renaming

end QueryViews
