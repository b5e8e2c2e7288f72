import QueryViews.View.Basic

/-!
# Views written by the user

The views that the user wrote in a mapping, for whole extents and for single types of entity
sets, under their keys. A later view of a key replaces an earlier one.
-/

namespace QueryViews

/-- The user's views under their keys. -/
abbrev UserViews := OrderedMap ViewKey View

/-- The views in the mapping of one extent: that of the whole extent first. Views for single types
count in the mapping of an entity set only. -/
def ExtentMapping.userViews (m : ExtentMapping) : List View :=
  let whole := m.queryView.toList.map fun text =>
    View.ofText (.extent m.extent) text .userDefined
  let typed := m.extent.entitySet?.toList.flatMap fun set =>
    m.typeViews.map fun v =>
      View.ofText (.ofType ⟨set, v.type, v.includeSubtypes⟩) v.text .userDefined
  whole ++ typed

/-- All views that the user wrote, in the order of the mapping. -/
def Mapping.userViews (m : Mapping) : List View :=
  m.containers.flatMap fun c => c.extents.flatMap ExtentMapping.userViews

namespace UserViews

/-- The user's views of a mapping; of two for one key, the last one counts. -/
def ofMapping (m : Mapping) : UserViews :=
  OrderedMap.ofList (m.userViews.map fun v => (v.key, v))

/-- Whether the user replaced the view of a whole extent. -/
def overrides (views : UserViews) (e : Extent) : Bool := views.contains (.extent e)

end UserViews

end QueryViews
