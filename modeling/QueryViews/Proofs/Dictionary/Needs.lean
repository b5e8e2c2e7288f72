import QueryViews.Proofs.Outcome
import QueryViews.Session

/-!
# What a step needs

Where the view of an extent comes from is a matter of the extent, of what the user wrote, and of the
schema (`Dictionary.LeadsTo`): the user's own view comes first, then the view by a foreign key, and
only then the pair that the container of the extent belongs to, if it belongs to one. That this is
the way a dictionary takes is said once, by `Dictionary.route_eq_ok_iff`.

So two questions about a step have answers that do not depend on what happened before it: which pair
it **needs** the views of (`Dictionary.Needs`), and whether it is **exempt** from asking the
generator (`Dictionary.Exempt`). No step is both (`Dictionary.Exempt.not_needs`).
-/

namespace QueryViews.Dictionary

variable {ω : Type} {d : Dictionary ω} {e : Extent} {step : Step} {id : ContainerId}

/-! ## Where a view comes from -/

/-- Where the view of an extent comes from. Of the four places, those further up go first. -/
inductive LeadsTo (d : Dictionary ω) (e : Extent) : Route → Prop
  /-- the user wrote a view of the extent -/
  | userView {view : Published View} (huser : d.userViews.get? (.extent e) = some view) :
    LeadsTo d e (.userView view)
  /-- the extent is an association set, and its association is encoded by a foreign key -/
  | foreignKey {set : AssociationSetId} (huser : d.userViews.get? (.extent e) = none)
    (hset : e = .associationSet set) (hkey : d.schema.hasForeignKeyView set = .ok true) :
    LeadsTo d e (.foreignKey set)
  /-- the container of the extent, on either side, belongs to a pair -/
  | pair {owner : ContainerRef} {id : ContainerId}
    (huser : d.userViews.get? (.extent e) = none)
    (hkey : ∀ set, e = .associationSet set → d.schema.hasForeignKeyView set = .ok false)
    (howner : d.schema.containerOf e = .ok owner)
    (hpair : d.schema.canonicalContainer? owner = some id) : LeadsTo d e (.pair id)
  /-- the container of the extent belongs to none -/
  | unmapped {owner : ContainerRef} {name : String}
    (huser : d.userViews.get? (.extent e) = none)
    (hkey : ∀ set, e = .associationSet set → d.schema.hasForeignKeyView set = .ok false)
    (howner : d.schema.containerOf e = .ok owner)
    (hpair : d.schema.canonicalContainer? owner = none)
    (hname : d.schema.extentName e = .ok name) : LeadsTo d e (.unmapped name)

/-- A foreign key is found where the association of an association set is encoded by one. -/
theorem foreignKeyRoute?_eq_some_iff {set : AssociationSetId} :
    d.foreignKeyRoute? e = .ok (some set) ↔
      e = .associationSet set ∧ d.schema.hasForeignKeyView set = .ok true := by
  cases e with
  | entitySet | table => exact ⟨nofun, nofun⟩
  | associationSet id =>
    rw [foreignKeyRoute?, bind_eq_ok_iff]
    constructor
    · rintro ⟨b, hb, hr⟩
      cases b <;> cases hr
      exact ⟨rfl, hb⟩
    · rintro ⟨hset, hkey⟩
      cases hset
      exact ⟨true, hkey, rfl⟩

/-- No foreign key is found anywhere else, if it can be told at all whether there is one. -/
theorem foreignKeyRoute?_eq_none_iff : d.foreignKeyRoute? e = .ok none ↔
    ∀ set, e = .associationSet set → d.schema.hasForeignKeyView set = .ok false := by
  cases e with
  | entitySet | table => exact ⟨fun _ => nofun, fun _ => rfl⟩
  | associationSet id =>
    rw [foreignKeyRoute?, bind_eq_ok_iff]
    constructor
    · rintro ⟨b, hb, hr⟩ set hset
      cases hset
      cases b <;> cases hr
      exact hb
    · exact fun h => ⟨false, h id rfl, rfl⟩

/-- A dictionary looks for the view of an extent where it comes from. -/
theorem route_eq_ok_iff {route : Route} : d.route e = .ok route ↔ d.LeadsTo e route := by
  rw [Dictionary.route]
  cases huser : d.userViews.get? (.extent e) with
  | some view =>
    refine ⟨fun h => ?_, fun h => ?_⟩
    · cases h
      exact .userView huser
    · cases h with
      | userView huser' =>
        cases huser.symm.trans huser'
        rfl
      | foreignKey huser' | pair huser' | unmapped huser' => cases huser.symm.trans huser'
  -- without a view of the user, whether there is a foreign key is asked before the container is
  | none =>
    simp only
    rw [bind_eq_ok_iff]
    constructor
    · rintro ⟨set?, hset, h⟩
      cases set? with
      | some set =>
        cases h
        obtain ⟨hset, hkey⟩ := foreignKeyRoute?_eq_some_iff.1 hset
        exact .foreignKey huser hset hkey
      | none =>
        have hkey := foreignKeyRoute?_eq_none_iff.1 hset
        obtain ⟨owner, howner, h⟩ := bind_eq_ok_iff.1 h
        cases hpair : d.schema.canonicalContainer? owner with
        | some id =>
          rw [hpair] at h
          cases h
          exact .pair huser hkey howner hpair
        | none =>
          rw [hpair] at h
          obtain ⟨name, hname, h⟩ := bind_eq_ok_iff.1 h
          cases h
          exact .unmapped huser hkey howner hpair hname
    · intro h
      cases h with
      | userView huser' => cases huser.symm.trans huser'
      | foreignKey _ hset hkey =>
        exact ⟨_, foreignKeyRoute?_eq_some_iff.2 ⟨hset, hkey⟩, rfl⟩
      | pair _ hkey howner hpair =>
        refine ⟨none, foreignKeyRoute?_eq_none_iff.2 hkey, bind_eq_ok_iff.2 ⟨_, howner, ?_⟩⟩
        rw [hpair]
        rfl
      | unmapped _ hkey howner hpair hname =>
        refine ⟨none, foreignKeyRoute?_eq_none_iff.2 hkey, bind_eq_ok_iff.2 ⟨_, howner, ?_⟩⟩
        rw [hpair]
        exact bind_eq_ok_iff.2 ⟨_, hname, rfl⟩

/-! ## Steps that need a pair -/

/-- A step needs the views of the pair of a container. -/
inductive Needs (d : Dictionary ω) : Step → ContainerId → Prop
  /-- it is for the view of an extent, and that comes from the pair -/
  | getView {e : Extent} {id : ContainerId} (hleads : d.LeadsTo e (.pair id)) :
    Needs d (.getView e) id
  /-- it is for the artifact of the pair -/
  | exportViews {c id : ContainerId}
    (hpair : d.schema.canonicalContainer? (.conceptual c) = some id) : Needs d (.exportViews c) id

/-- For an extent whose view comes from a pair, a dictionary resolves the pair. -/
theorem Needs.route (h : d.Needs (.getView e) id) : d.route e = .ok (.pair id) := by
  cases h with
  | getView hleads => exact route_eq_ok_iff.2 hleads

/-- The pair to export is named by its conceptual container. -/
theorem Needs.canonical {c : ContainerId} (h : d.Needs (.exportViews c) id) :
    d.schema.canonicalContainer? (.conceptual c) = some id := by
  cases h with
  | exportViews hpair => exact hpair

/-- The container whose pair a step asks for, as a dictionary finds it. -/
def asks? (d : Dictionary ω) : Step → Option ContainerId
  | .getView e =>
    match d.route e with
    | .ok (.pair container) => some container
    | _ => none
  | .exportViews id => d.schema.canonicalContainer? (.conceptual id)
  | _ => none

/-- What a step asks for is what it needs. -/
theorem asks?_eq_some_iff : d.asks? step = some id ↔ d.Needs step id := by
  cases step with
  | getView e =>
    rw [asks?]
    constructor
    · intro h
      split at h
      · rename_i hroute
        cases h
        exact .getView (route_eq_ok_iff.1 hroute)
      · cases h
    · intro hneeds
      rw [hneeds.route]
  | exportViews c => exact ⟨.exportViews, Needs.canonical⟩
  | getViewOfType | members | closureHash | warnings | clearCache | config => exact ⟨nofun, nofun⟩

/-- No step needs two pairs. -/
theorem Needs.unique {id' : ContainerId} (h : d.Needs step id) (h' : d.Needs step id') :
    id = id' :=
  Option.some.inj ((asks?_eq_some_iff.2 h).symm.trans (asks?_eq_some_iff.2 h'))

/-! ## Steps that never ask the generator -/

/-- A step that is served without the views of any pair, and without those of a type: by the user,
by a foreign key, or by the answer that there is no mapping. -/
inductive Exempt (d : Dictionary ω) : Step → Prop
  /-- the user wrote a view of the extent -/
  | userView {e : Extent} {view : Published View}
    (huser : d.userViews.get? (.extent e) = some view) : Exempt d (.getView e)
  /-- the association of the association set is encoded by a foreign key -/
  | foreignKey {set : AssociationSetId} (hkey : d.schema.hasForeignKeyView set = .ok true) :
    Exempt d (.getView (.associationSet set))
  /-- the container of the extent belongs to no pair -/
  | unmapped {e : Extent} {owner : ContainerRef} (howner : d.schema.containerOf e = .ok owner)
    (hpair : d.schema.canonicalContainer? owner = none) : Exempt d (.getView e)
  /-- the user wrote a view of the type -/
  | userTypeView {k : TypeKey} {view : Published View}
    (huser : d.userViews.get? (.ofType k) = some view) : Exempt d (.getViewOfType k)
  /-- the user wrote a view of the set as a whole -/
  | userSetView {k : TypeKey} {view : Published View}
    (huser : d.userViews.get? (.extent (.entitySet k.entitySet)) = some view) :
    Exempt d (.getViewOfType k)
  /-- the container of the set is not mapped -/
  | unmappedType {k : TypeKey}
    (hmapping : d.schema.mapping.container? k.entitySet.container = none) :
    Exempt d (.getViewOfType k)
  /-- the container to export belongs to no pair -/
  | unmappedExport {c : ContainerId}
    (hpair : d.schema.canonicalContainer? (.conceptual c) = none) : Exempt d (.exportViews c)

/-- A step that is exempt needs no pair. -/
theorem Exempt.not_needs (h : d.Exempt step) (id : ContainerId) : ¬ d.Needs step id := by
  intro hneeds
  cases h with
  | userView huser =>
    obtain ⟨hleads⟩ := hneeds
    cases hleads with
    | pair huser' => cases huser.symm.trans huser'
  | foreignKey hkey =>
    obtain ⟨hleads⟩ := hneeds
    cases hleads with
    | pair _ hkey' => cases hkey.symm.trans (hkey' _ rfl)
  | unmapped howner hpair =>
    obtain ⟨hleads⟩ := hneeds
    cases hleads with
    | pair _ _ howner' hpair' =>
      cases howner.symm.trans howner'
      cases hpair.symm.trans hpair'
  | userTypeView | userSetView | unmappedType => cases hneeds
  | unmappedExport hpair => cases hpair.symm.trans hneeds.canonical

end QueryViews.Dictionary
