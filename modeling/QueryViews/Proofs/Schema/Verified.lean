import QueryViews.Proofs.Outcome
import QueryViews.Schema.Verification

/-!
# What verification gives

A schema that was built passed every check. Each check says something about all that it looked at:
here are those facts, in the words of the schema. What no check looks at is there by the way in
which schemas are put together (`Schema.Built.induction`).
-/

namespace QueryViews

/-- A look-up inside an operation that may also fail with an error. -/
theorem lift_eq_ok_iff {ε α : Type} {x : Except Fault α} {a : α} :
    (liftM x : Except (Failure ε) α) = .ok a ↔ x = .ok a := by
  cases x with
  | error f => exact ⟨nofun, nofun⟩
  | ok b => exact ⟨fun h => by cases h; rfl, fun h => by cases h; rfl⟩

/-- A schema that was put together by declarations and passed verification. -/
def Schema.Built (s : Schema) : Prop :=
  ∃ declarations ids, Schema.build declarations = .ok (s, ids)

namespace Schema

variable {s : Schema}

/-- The first declaration is applied, and the rest to what it gives. -/
theorem declareFrom_cons_eq_ok_iff {s' : Schema} {start : Nat} {d : Declaration}
    {declarations : List Declaration} {ids : List Issued} :
    s.declareFrom start (d :: declarations) = .ok (s', ids) ↔
      ∃ s₁ i ids₁, s.declare d = .ok (s₁, i) ∧
        s₁.declareFrom (start + 1) declarations = .ok (s', ids₁) ∧ ids = i :: ids₁ := by
  rw [declareFrom]
  constructor
  · intro h
    split at h
    · cases h
    · rename_i s₁ i hd
      obtain ⟨⟨s₂, ids₁⟩, hrest, hr⟩ := map_eq_ok_iff.1 h
      cases hr
      exact ⟨s₁, i, ids₁, hd, hrest, rfl⟩
  · rintro ⟨s₁, i, ids₁, hd, hrest, rfl⟩
    rw [hd]
    exact map_eq_ok_iff.2 ⟨_, hrest, rfl⟩

/-- What is built is what was declared, if it passes verification. -/
theorem build_eq_ok_iff {declarations : List Declaration} {ids : List Issued} :
    Schema.build declarations = .ok (s, ids) ↔
      empty.declareFrom 0 declarations = .ok (s, ids) ∧ s.verify = .ok () := by
  unfold build
  constructor
  · intro h
    split at h
    · cases h
    · split at h
      · rename_i hdeclared _ hv
        cases h
        exact ⟨hdeclared, hv⟩
      · cases h
      · cases h
  · rintro ⟨hdeclared, hv⟩
    rw [hdeclared]
    dsimp only
    rw [hv]

/-- What holds of the empty schema and is kept by each of the declarations holds of what they
build. -/
theorem build_induction {P : Schema → Prop} {declarations : List Declaration} {ids : List Issued}
    (h : Schema.build declarations = .ok (s, ids)) (hempty : P empty)
    (hdeclare : ∀ d ∈ declarations, ∀ s s' i, P s → s.declare d = .ok (s', i) → P s') : P s := by
  have hall : ∀ (declarations : List Declaration) start (s₀ s : Schema) ids, P s₀ →
      (∀ d ∈ declarations, ∀ s s' i, P s → s.declare d = .ok (s', i) → P s') →
      s₀.declareFrom start declarations = .ok (s, ids) → P s := by
    intro declarations
    induction declarations with
    | nil =>
      intro start s₀ s ids h₀ hdeclare h
      cases h
      exact h₀
    | cons d rest ih =>
      intro start s₀ s ids h₀ hdeclare h
      obtain ⟨s₁, i, ids₁, hd, hrest, -⟩ := declareFrom_cons_eq_ok_iff.1 h
      exact ih _ _ _ _ (hdeclare _ List.mem_cons_self _ _ _ h₀ hd)
        (fun d hd => hdeclare d (List.mem_cons_of_mem _ hd)) hrest
  exact hall _ _ _ _ _ hempty hdeclare (build_eq_ok_iff.1 h).1

/-- What holds of the empty schema and is kept by every declaration holds of a built one. -/
theorem Built.induction {P : Schema → Prop} (hs : s.Built) (hempty : P empty)
    (hdeclare : ∀ s d s' i, P s → s.declare d = .ok (s', i) → P s') : P s := by
  obtain ⟨declarations, ids, h⟩ := hs
  exact build_induction h hempty fun d _ s s' i => hdeclare s d s' i

/-- The checks that a verified schema passed. -/
structure Verified (s : Schema) : Prop where
  modelNames : s.checkModelNames = .ok ()
  inheritance : s.checkInheritance = .ok ()
  keys : s.checkKeys = .ok ()
  fields : s.checkFields = .ok ()
  associations : s.checkAssociations = .ok ()
  containerNames : checkContainerNames [] s.conceptual.containers = .ok ()
  associationSets : s.checkAssociationSets = .ok ()
  stores : s.checkStores [] s.mapping.containers = .ok ()
  mappings : s.checkMappings = .ok ()

/-- A schema that passes verification passed each of its checks. -/
theorem verified_of_verify_eq_ok (h : s.verify = .ok ()) : s.Verified := by
  simp only [verify, bind_eq_ok_iff] at h
  obtain ⟨_, h1, _, h2, _, h3, _, h4, _, h5, _, h6, _, h7, _, h8, h9⟩ := h
  exact ⟨h1, h2, h3, h4, h5, h6, h7, h8, h9⟩

/-- A schema that was built is verified. -/
theorem Built.verified (h : s.Built) : s.Verified := by
  obtain ⟨declarations, ids, h⟩ := h
  exact verified_of_verify_eq_ok (build_eq_ok_iff.1 h).2

/-! ## Names -/

/-- Nothing is repeated if all elements are different. -/
theorem firstRepeated_eq_none_iff {α : Type} [DecidableEq α] {seen l : List α} :
    firstRepeated seen l = none ↔ l.Nodup ∧ ∀ a ∈ l, a ∉ seen := by
  induction l generalizing seen with
  | nil => exact iff_of_true rfl ⟨List.nodup_nil, List.forall_mem_nil _⟩
  | cons a l ih =>
    rw [firstRepeated]
    by_cases ha : a ∈ seen
    · rw [if_pos ha]
      exact iff_of_false nofun fun h => h.2 a List.mem_cons_self ha
    · rw [if_neg ha, ih, List.nodup_cons, List.forall_mem_cons]
      simp only [List.mem_cons, not_or]
      grind

/-- Types have different names. -/
theorem Verified.nodup_modelNames (hv : s.Verified) :
    (s.conceptual.models.map Model.name).Nodup := by
  have h := hv.modelNames
  rw [checkModelNames] at h
  split at h
  · cases h
  · rename_i hnone
    exact (firstRepeated_eq_none_iff.1 hnone).1

/-- The loop over containers: their names are new, and so are the names within each. -/
theorem nodup_of_checkContainerNames {seen : List String} {cs : List Container}
    (h : checkContainerNames seen cs = .ok ()) :
    ((cs.map Container.name).Nodup ∧ ∀ c ∈ cs, c.name ∉ seen) ∧
      ∀ c ∈ cs, (extentNames c).Nodup := by
  induction cs generalizing seen with
  | nil => exact ⟨⟨List.nodup_nil, List.forall_mem_nil _⟩, List.forall_mem_nil _⟩
  | cons c cs ih =>
    rw [checkContainerNames] at h
    split at h
    · cases h
    · rename_i hseen
      split at h
      · cases h
      · rename_i hnone
        obtain ⟨⟨hnodup, hnew⟩, hextents⟩ := ih h
        refine ⟨⟨List.nodup_cons.2 ⟨fun hmem => ?_, hnodup⟩, List.forall_mem_cons.2
          ⟨hseen, fun c' hc' hmem => hnew c' hc' (List.mem_cons_of_mem _ hmem)⟩⟩,
          List.forall_mem_cons.2 ⟨(firstRepeated_eq_none_iff.1 hnone).1, hextents⟩⟩
        obtain ⟨c', hc', heq⟩ := List.mem_map.1 hmem
        exact hnew c' hc' (heq ▸ List.mem_cons_self)

/-- Conceptual containers have different names. -/
theorem Verified.nodup_containerNames (hv : s.Verified) :
    (s.conceptual.containers.map Container.name).Nodup :=
  (nodup_of_checkContainerNames hv.containerNames).1.1

/-- The sets of a conceptual container have different names. -/
theorem Verified.nodup_extentNames (hv : s.Verified) {c : Container}
    (hc : c ∈ s.conceptual.containers) : (extentNames c).Nodup :=
  (nodup_of_checkContainerNames hv.containerNames).2 c hc

/-! ## Pairs -/

/-- The loop over pairs: their store sides are new, and exist. -/
theorem nodup_of_checkStores {seen : List StoreId} {ms : List ContainerMapping}
    (h : s.checkStores seen ms = .ok ()) :
    ((ms.map ContainerMapping.store).Nodup ∧ ∀ m ∈ ms, m.store ∉ seen) ∧
      ∀ m ∈ ms, ∃ store, s.store.container m.store = .ok store := by
  induction ms generalizing seen with
  | nil => exact ⟨⟨List.nodup_nil, List.forall_mem_nil _⟩, List.forall_mem_nil _⟩
  | cons m rest ih =>
    rw [checkStores] at h
    split at h
    · cases h
    · rename_i store hstore
      split at h
      · cases h
      · rename_i hseen
        obtain ⟨⟨hnodup, hnew⟩, hexist⟩ := ih h
        refine ⟨⟨List.nodup_cons.2 ⟨fun hmem => ?_, hnodup⟩, List.forall_mem_cons.2
          ⟨hseen, fun m' hm' hmem => hnew m' hm' (List.mem_cons_of_mem _ hmem)⟩⟩,
          List.forall_mem_cons.2 ⟨⟨store, found_eq_ok_iff.2 hstore⟩, hexist⟩⟩
        obtain ⟨m', hm', heq⟩ := List.mem_map.1 hmem
        exact hnew m' hm' (heq ▸ List.mem_cons_self)

/-- No store container belongs to two pairs. -/
theorem Verified.nodup_stores (hv : s.Verified) :
    (s.mapping.containers.map ContainerMapping.store).Nodup :=
  (nodup_of_checkStores hv.stores).1.1

/-- The store side of every pair exists. -/
theorem Verified.exists_store (hv : s.Verified) {m : ContainerMapping}
    (hm : m ∈ s.mapping.containers) : ∃ store, s.store.container m.store = .ok store :=
  (nodup_of_checkStores hv.stores).2 m hm

/-! ## Relationships -/

/-- There is no third end. -/
theorem lt_two_of_get?_eq_some {α : Type} {e : Ends α} {index : Nat} {a : α}
    (h : e.get? index = some a) : index < 2 :=
  (List.getElem?_eq_some_iff.1 h).1

/-- A navigation starts at one of the two ends. -/
theorem Verified.near_lt_two (hv : s.Verified) {m : Model} (hm : m ∈ s.conceptual.models)
    {f : Field} (hf : f ∈ m.fields) {a : AssociationId} {near far : Nat}
    (ht : f.type = .navigation a near far) : near < 2 := by
  have hfields := hv.fields
  unfold checkFields at hfields
  obtain ⟨index, hi, rfl⟩ := List.mem_iff_getElem.1 hm
  have hcheck := forM_eq_ok_iff.1 hfields (s.conceptual.models[index], index)
    (List.mk_mem_zipIdx_iff_getElem?.2 (List.getElem?_eq_getElem hi))
  have hfield := forM_eq_ok_iff.1 hcheck f hf
  simp only [checkField, ht] at hfield
  split at hfield
  · cases hfield
  · split at hfield
    · cases hfield
    · rename_i e he
      exact lt_two_of_get?_eq_some he

/-- The principal of a constraint is one of the two ends. -/
theorem Verified.principal_lt_two (hv : s.Verified) {a : Association}
    (ha : a ∈ s.conceptual.associations) {fk : ForeignKey} (hfk : fk ∈ a.constraints) :
    fk.principal < 2 := by
  have hcheck := forM_eq_ok_iff.1 hv.associations a ha
  simp only [checkAssociation, bind_eq_ok_iff] at hcheck
  obtain ⟨-, -, hconstraints⟩ := hcheck
  have hfk := forM_eq_ok_iff.1 hconstraints fk hfk
  unfold checkConstraint at hfk
  split at hfk
  · rename_i principal dependent hp hd
    exact lt_two_of_get?_eq_some hp
  · cases hfk

end Schema

end QueryViews
