import QueryViews.Proofs.OrderedMap
import QueryViews.Proofs.Schema.Changes
import QueryViews.View.UserDefined

/-!
# The user's views and the mapping

Views that the user wrote can be found in two ways: in the map of all of them (`UserViews`), or by
going to the mapping of an extent (`Mapping.extent?`) and on to its view, or to its first view for a
type (`ExtentMapping.typeView?`).

As long as no declaration moves a mapping to another extent, mappings are **filed**
(`Mapping.Filed`): each is kept for the container of its extent, and no extent has two. Then both
ways find the same views of whole extents, and views for the same types
(`Schema.get?_userViews_of_build`). For a type that has more than one view, the map has the last
and the mapping gives the first.
-/

namespace QueryViews

/-! ## Filed mappings -/

/-- The extents that have a mapping. -/
def ContainerMapping.mapped (c : ContainerMapping) : List Extent :=
  c.extents.map ExtentMapping.extent

/-- The mappings are of extents of the container, no two of one extent. -/
structure ContainerMapping.Filed (c : ContainerMapping) : Prop where
  own : ∀ e ∈ c.mapped, e.container? = some c.conceptual
  nodup : c.mapped.Nodup

/-- No container has two entries, and in each the mappings are filed. -/
structure Mapping.Filed (m : Mapping) : Prop where
  nodup : (m.containers.map ContainerMapping.conceptual).Nodup
  each : ∀ c ∈ m.containers, c.Filed

/-- A new entry has nothing to file. -/
theorem ContainerMapping.filed_new (id : ContainerId) (store : StoreId) :
    (⟨id, store, []⟩ : ContainerMapping).Filed :=
  ⟨List.forall_mem_nil _, List.nodup_nil⟩

/-- An edit that does not move the mapping to another extent. -/
def MappingEdit.Stays (edit : MappingEdit) : Prop := ∀ e, edit ≠ .extent e

/-- An edit that does not move the mapping leaves the extent. -/
theorem MappingEdit.Stays.extent_apply {edit : MappingEdit} (h : edit.Stays) (m : ExtentMapping) :
    (edit.apply m).extent = m.extent := by
  cases edit with
  | extent e => exact absurd rfl (h e)
  | keep | queryView | typeView | typeMapping | function => rfl

/-- An edit adds its extent at the end, unless there is a mapping of it. -/
theorem map_extent_editExtent {edit : MappingEdit} (h : edit.Stays) (e : Extent)
    (l : List ExtentMapping) : (editExtent e edit l).map ExtentMapping.extent =
      if e ∈ l.map ExtentMapping.extent then l.map ExtentMapping.extent
      else l.map ExtentMapping.extent ++ [e] := by
  induction l with
  | nil => exact congrArg (· :: []) (h.extent_apply _)
  | cons m rest ih =>
    by_cases hm : m.extent = e
    · simp [editExtent, hm, h.extent_apply]
    · rw [editExtent, if_neg hm, List.map_cons, List.map_cons, ih]
      by_cases hmem : e ∈ rest.map ExtentMapping.extent
      · rw [if_pos hmem, if_pos (List.mem_cons_of_mem _ hmem)]
      · rw [if_neg hmem, if_neg fun h => (List.mem_cons.1 h).elim (Ne.symm hm) hmem,
          List.cons_append]

/-- Such an edit keeps the mappings of a container filed. -/
theorem ContainerMapping.Filed.edit {c : ContainerMapping} (h : c.Filed) {e : Extent}
    {edit : MappingEdit} (hstays : edit.Stays) (he : e.container? = some c.conceptual) :
    ({ c with extents := editExtent e edit c.extents } : ContainerMapping).Filed := by
  have hmapped := map_extent_editExtent hstays e c.extents
  refine ⟨fun e' he' => ?_, ?_⟩
  · rw [mapped, hmapped] at he'
    split at he'
    · exact h.own e' he'
    · rcases List.mem_append.1 he' with he' | he'
      · exact h.own e' he'
      · rw [List.mem_singleton.1 he', he]
  · rw [mapped, hmapped]
    split
    · exact h.nodup
    · rename_i hnew
      exact List.nodup_append.2 ⟨h.nodup, List.nodup_singleton _,
        fun a ha b hb heq => hnew (List.mem_singleton.1 hb ▸ heq ▸ ha)⟩

namespace Mapping

variable {m m' : Mapping}

/-- A container that is paired anew starts with an empty entry. -/
theorem Filed.pair (h : m.Filed) (id : ContainerId) (store : StoreId) :
    (m.pair id store).Filed := by
  refine ⟨Keyed.pair h.nodup id store, fun c hc => ?_⟩
  unfold Mapping.pair at hc
  cases hid : m.container? id with
  | some entry =>
    rw [hid] at hc
    obtain ⟨old, hold, rfl⟩ := List.mem_map.1 hc
    by_cases heq : old.conceptual = id
    · rw [if_pos heq]
      exact ContainerMapping.filed_new id store
    · rw [if_neg heq]
      exact h.each old hold
  | none =>
    rw [hid] at hc
    rcases List.mem_append.1 hc with hc | hc
    · exact h.each c hc
    · rw [List.mem_singleton.1 hc]
      exact ContainerMapping.filed_new id store

/-- Such an edit keeps all mappings filed. -/
theorem Filed.edit (h : m.Filed) {e : Extent} {edit : MappingEdit} (hstays : edit.Stays)
    (hedit : m.edit e edit = .ok m') : m'.Filed := by
  refine ⟨Keyed.edit h.nodup hedit, fun c' hc' => ?_⟩
  cases e with
  | table id => cases hedit
  | entitySet set | associationSet set =>
    obtain ⟨c, -, hr⟩ := bind_eq_ok_iff.1 hedit
    cases hr
    obtain ⟨old, hold, rfl⟩ := List.mem_map.1 hc'
    split
    · rename_i heq
      exact (h.each old hold).edit hstays (congrArg some heq.symm)
    · exact h.each old hold

/-- Every mapping of an extent is the one that is found for the extent. -/
theorem Filed.extent?_eq_some (h : m.Filed) {entry : ExtentMapping}
    (hentry : entry ∈ m.containers.flatMap ContainerMapping.extents) :
    m.extent? entry.extent = some entry := by
  obtain ⟨c, hc, hentry⟩ := List.mem_flatMap.1 hentry
  have hcontainer : m.container? c.conceptual = some c := find?_eq_some_of_nodup h.nodup hc
  rw [extent?, (h.each c hc).own _ (List.mem_map_of_mem hentry), Option.bind_some, hcontainer]
  exact find?_eq_some_of_nodup (h.each c hc).nodup hentry

/-- A mapping that is found is a mapping of the extent. -/
theorem mem_of_extent?_eq_some {e : Extent} {entry : ExtentMapping}
    (h : m.extent? e = some entry) :
    entry ∈ m.containers.flatMap ContainerMapping.extents ∧ entry.extent = e := by
  obtain ⟨id, -, h⟩ := Option.bind_eq_some_iff.1 h
  obtain ⟨c, hc, h⟩ := Option.bind_eq_some_iff.1 h
  have hextent := List.find?_some h
  exact ⟨List.mem_flatMap.2 ⟨c, List.mem_of_find?_eq_some hc, List.mem_of_find?_eq_some h⟩,
    of_decide_eq_true hextent⟩

end Mapping

namespace Schema

variable {s s' : Schema}

/-- A declaration that moves no mapping keeps mappings filed. -/
theorem Change.filed {d : Declaration} {i : Issued} (h : s.Change d s' i)
    (hm : s.mapping.Filed) (hstays : ∀ e edit, d = .mapExtent e edit → edit.Stays) :
    s'.mapping.Filed := by
  cases h with
  | conceptual | store => exact hm
  | pair id store => exact hm.pair id store
  | edit h => exact hm.edit (hstays _ _ rfl) h

/-- If no declaration moves a mapping to another extent, mappings are filed. -/
theorem filed_of_build {declarations : List Declaration} {ids : List Issued}
    (h : Schema.build declarations = .ok (s, ids))
    (hstays : ∀ e edit, .mapExtent e edit ∈ declarations → edit.Stays) : s.mapping.Filed :=
  build_induction (P := fun s => s.mapping.Filed) h ⟨List.nodup_nil, List.forall_mem_nil _⟩
    fun _ hd _ _ _ hm hdeclare => (change_of_declare hdeclare).filed hm
      fun e edit heq => hstays e edit (heq ▸ hd)

end Schema

/-! ## The map of all views -/

/-- The extent that a view is of, or of which it shows one type. -/
def ViewKey.subject : ViewKey → Extent
  | .extent e => e
  | .ofType k => .entitySet k.entitySet

/-- An extent that is an entity set is that one. -/
theorem Extent.eq_of_entitySet? {e : Extent} {id : EntitySetId} (h : e.entitySet? = some id) :
    e = .entitySet id := by
  cases e with
  | entitySet id' => exact congrArg Extent.entitySet (Option.some.inj h)
  | associationSet | table => cases h

/-- The first value of a function on a list, if it has none at any other element. -/
theorem findSome?_eq_of_forall {α β : Type} {f : α → Option β} {l : List α} {a : α} (ha : a ∈ l)
    (h : ∀ b ∈ l, f b = none ∨ b = a) : l.findSome? f = f a := by
  cases hfind : l.findSome? f with
  | none => exact (List.findSome?_eq_none_iff.1 hfind a ha).symm
  | some x =>
    obtain ⟨b, hb, hx⟩ := List.exists_of_findSome?_eq_some hfind
    rcases h b hb with hnone | rfl
    · cases hnone.symm.trans hx
    · exact hx.symm

namespace ExtentMapping

variable {m : ExtentMapping}

/-- The last view that the user wrote for a type. -/
def lastTypeView? (m : ExtentMapping) (type : ModelId) (includeSubtypes : Bool) :
    Option TypeView :=
  m.typeViews.reverse.find? fun v => v.type = type && v.includeSubtypes = includeSubtypes

/-- The user wrote at most one view for the type. -/
def TypedOnce (m : ExtentMapping) (type : ModelId) (includeSubtypes : Bool) : Prop :=
  m.typeViews.countP (fun v => v.type = type && v.includeSubtypes = includeSubtypes) ≤ 1

instance (m : ExtentMapping) (type : ModelId) (includeSubtypes : Bool) :
    Decidable (m.TypedOnce type includeSubtypes) :=
  inferInstanceAs (Decidable (_ ≤ _))

/-- There is a last view for a type if there is a first one. -/
theorem isSome_lastTypeView? (m : ExtentMapping) (type : ModelId) (includeSubtypes : Bool) :
    (m.lastTypeView? type includeSubtypes).isSome = (m.typeView? type includeSubtypes).isSome := by
  rw [lastTypeView?, typeView?, Bool.eq_iff_iff, List.find?_isSome, List.find?_isSome]
  simp only [List.mem_reverse]

/-- The only view for a type is the first one and the last one. -/
theorem TypedOnce.lastTypeView?_eq {type : ModelId} {includeSubtypes : Bool}
    (h : m.TypedOnce type includeSubtypes) :
    m.lastTypeView? type includeSubtypes = m.typeView? type includeSubtypes := by
  rw [TypedOnce, List.countP_eq_length_filter] at h
  rw [lastTypeView?, typeView?, ← List.head?_filter, ← List.head?_filter, List.filter_reverse]
  match hviews : m.typeViews.filter _, h with
  | [], _ => rfl
  | [v], _ => rfl

/-- The views for single types are those of an entity set. -/
theorem typed_userViews {set : EntitySetId} (h : m.extent = .entitySet set) :
    m.userViews = (m.queryView.toList.map fun text => .ofText (.extent m.extent) text .userDefined)
      ++ m.typeViews.map fun v =>
        .ofText (.ofType ⟨set, v.type, v.includeSubtypes⟩) v.text .userDefined := by
  rw [userViews, h]
  exact congrArg _ (List.append_nil _)

/-- The views of a mapping are of its extent. -/
theorem subject_of_mem_userViews {v : View} (h : v ∈ m.userViews) : v.key.subject = m.extent := by
  rcases List.mem_append.1 h with h | h
  · obtain ⟨text, -, rfl⟩ := List.mem_map.1 h
    rfl
  · obtain ⟨set, hset, h⟩ := List.mem_flatMap.1 h
    obtain ⟨w, -, rfl⟩ := List.mem_map.1 h
    exact (Extent.eq_of_entitySet? (Option.mem_toList.1 hset)).symm

/-- Only the view of the whole extent has its key. -/
theorem find?_extent_userViews (m : ExtentMapping) :
    m.userViews.reverse.find? (·.key = .extent m.extent) =
      m.queryView.map fun text => .ofText (.extent m.extent) text .userDefined := by
  have hnone : (m.extent.entitySet?.toList.flatMap fun set => m.typeViews.map fun v =>
      View.ofText (.ofType ⟨set, v.type, v.includeSubtypes⟩) v.text .userDefined).reverse.find?
        (·.key = .extent m.extent) = none := by
    refine List.find?_eq_none.2 fun v hv => ?_
    obtain ⟨set, -, hv⟩ := List.mem_flatMap.1 (List.mem_reverse.1 hv)
    obtain ⟨w, -, rfl⟩ := List.mem_map.1 hv
    exact of_decide_eq_false rfl
  rw [userViews, List.reverse_append, List.find?_append, hnone]
  cases m.queryView with
  | none => rfl
  | some text => simp [View.ofText]

/-- The last view for a type has the key of the type last. -/
theorem find?_ofType_userViews {k : TypeKey} (h : m.extent = .entitySet k.entitySet) :
    m.userViews.reverse.find? (·.key = .ofType k) =
      (m.lastTypeView? k.type k.includeSubtypes).map fun v =>
        .ofText (.ofType k) v.text .userDefined := by
  obtain ⟨set, type, includeSubtypes⟩ := k
  have hnone : (m.queryView.toList.map fun text =>
      View.ofText (.extent m.extent) text .userDefined).reverse.find?
        (·.key = .ofType ⟨set, type, includeSubtypes⟩) = none := by
    refine List.find?_eq_none.2 fun v hv => ?_
    obtain ⟨text, -, rfl⟩ := List.mem_map.1 (List.mem_reverse.1 hv)
    exact of_decide_eq_false rfl
  have hkey : ((fun v : View => decide (v.key = .ofType ⟨set, type, includeSubtypes⟩)) ∘
      fun v : TypeView => View.ofText (.ofType ⟨set, v.type, v.includeSubtypes⟩) v.text
        .userDefined) = fun v => v.type = type && v.includeSubtypes = includeSubtypes := by
    funext v
    simp [View.ofText, Bool.decide_and]
  rw [typed_userViews h, List.reverse_append, List.find?_append, hnone, Option.or_none,
    ← List.map_reverse, List.find?_map, hkey, lastTypeView?]
  -- what is found is for the type
  refine Option.map_congr fun v hv => ?_
  have hv := List.find?_some hv
  rw [Bool.and_eq_true, decide_eq_true_iff, decide_eq_true_iff] at hv
  rw [hv.1, hv.2]

end ExtentMapping

namespace Mapping.Filed

variable {m : Mapping}

/-- Under a key, the map has the last view that the mapping of the extent has for the key. -/
theorem get?_ofMapping (h : m.Filed) (k : ViewKey) :
    (UserViews.ofMapping m).get? k =
      (m.extent? k.subject).bind fun entry => entry.userViews.reverse.find? (·.key = k) := by
  -- of the views with one key the last counts, which is the first from behind
  have hlast : (UserViews.ofMapping m).get? k =
      (m.containers.flatMap ContainerMapping.extents).reverse.findSome? fun entry =>
        entry.userViews.reverse.find? (·.key = k) := by
    rw [UserViews.ofMapping, OrderedMap.get?_ofList, ← List.map_reverse, List.find?_map,
      Option.map_map, Mapping.userViews, ← List.flatMap_assoc, List.reverse_flatMap,
      List.find?_flatMap]
    exact Option.map_id_fun' ▸ rfl
  -- the entry of another extent has no view with this key
  have hother : ∀ entry : ExtentMapping, entry.extent ≠ k.subject →
      entry.userViews.reverse.find? (·.key = k) = none := by
    intro entry hne
    refine List.find?_eq_none.2 fun v hv heq => hne ?_
    rw [← ExtentMapping.subject_of_mem_userViews (List.mem_reverse.1 hv), of_decide_eq_true heq]
  rw [hlast]
  cases hfound : m.extent? k.subject with
  | none =>
    refine List.findSome?_eq_none_iff.2 fun entry hentry => hother entry fun heq => ?_
    have hplaced := h.extent?_eq_some (List.mem_reverse.1 hentry)
    rw [heq, hfound] at hplaced
    cases hplaced
  | some entry =>
    obtain ⟨hmem, -⟩ := mem_of_extent?_eq_some hfound
    refine findSome?_eq_of_forall (List.mem_reverse.2 hmem) fun other hentry => ?_
    by_cases heq : other.extent = k.subject
    · have hplaced := h.extent?_eq_some (List.mem_reverse.1 hentry)
      rw [heq, hfound] at hplaced
      exact .inr (Option.some.inj hplaced).symm
    · exact .inl (hother other heq)

/-- The map has the view that the mapping of the extent has. -/
theorem get?_extent (h : m.Filed) (e : Extent) :
    (UserViews.ofMapping m).get? (.extent e) =
      ((m.extent? e).bind ExtentMapping.queryView).map fun text =>
        .ofText (.extent e) text .userDefined := by
  rw [h.get?_ofMapping, ViewKey.subject]
  cases hentry : m.extent? e with
  | none => rfl
  | some entry =>
    obtain ⟨-, rfl⟩ := mem_of_extent?_eq_some hentry
    exact entry.find?_extent_userViews

/-- The map has the last view that the mapping of the entity set has for the type. -/
theorem get?_ofType (h : m.Filed) (k : TypeKey) :
    (UserViews.ofMapping m).get? (.ofType k) =
      ((m.extent? (.entitySet k.entitySet)).bind
        (·.lastTypeView? k.type k.includeSubtypes)).map fun v =>
          .ofText (.ofType k) v.text .userDefined := by
  rw [h.get?_ofMapping, ViewKey.subject]
  cases hentry : m.extent? (.entitySet k.entitySet) with
  | none => rfl
  | some entry => exact entry.find?_ofType_userViews (mem_of_extent?_eq_some hentry).2

end Mapping.Filed

/-! ## Two views of one type -/

namespace Rewritten

/-- A shop with a view of all orders, and then one view after another of the same type in them. -/
def declarations (texts : List String) : List Declaration := [
  .entity "Order", .field .key ⟨0⟩ "Id" .int32,
  .container "Shop", .entitySet ⟨0⟩ "Orders" ⟨0⟩,
  .storeContainer "Db", .mapContainers ⟨0⟩ ⟨0⟩,
  .mapExtent (.entitySet ⟨⟨0⟩, 0⟩) (.queryView "all")] ++
  texts.map fun text => .mapExtent (.entitySet ⟨⟨0⟩, 0⟩) (.typeView ⟨⟨0⟩, true, text⟩)

/-- The schema that they make. -/
def schema (texts : List String) : Schema where
  conceptual := {
    models := [
      ⟨"Order", [⟨"Id", .scalar .int32, false, false⟩], .entity ⟨none, false, [⟨⟨0⟩, 0⟩]⟩⟩]
    associations := []
    containers := [⟨"Shop", [⟨"Orders", ⟨0⟩⟩], []⟩] }
  store := ⟨[⟨"Db", []⟩], []⟩
  mapping := ⟨[⟨⟨0⟩, ⟨0⟩, [⟨.entitySet ⟨⟨0⟩, 0⟩, some "all",
    texts.map fun text => ⟨⟨0⟩, true, text⟩, [], []⟩]⟩]⟩

/-- The ids that are issued on the way. -/
def issued (texts : List String) : List Issued := [
    .model ⟨0⟩, .field ⟨⟨0⟩, 0⟩, .container ⟨0⟩, .entitySet ⟨⟨0⟩, 0⟩, .store ⟨0⟩, .nothing,
    .nothing] ++
  texts.map fun _ => .nothing

/-- The type in the set, with its subtypes. -/
def key : TypeKey := ⟨⟨⟨0⟩, 0⟩, ⟨0⟩, true⟩

theorem build_eq_once :
    Schema.build (declarations ["first"]) = .ok (schema ["first"], issued ["first"]) := by
  cbv

theorem build_eq : Schema.build (declarations ["first", "second"]) =
    .ok (schema ["first", "second"], issued ["first", "second"]) := by
  cbv

theorem stays (texts : List String) :
    ∀ e edit, .mapExtent e edit ∈ declarations texts → edit.Stays := by
  intro e edit hmem e' heq
  subst heq
  simp [declarations] at hmem

/-- The map has the text of the later view, the mapping that of the earlier one. -/
theorem typeViews_differ :
    Schema.build (declarations ["first", "second"]) =
      .ok (schema ["first", "second"], issued ["first", "second"]) ∧
    ((UserViews.ofMapping (schema ["first", "second"]).mapping).get? (.ofType key)).map View.text =
      some "second" ∧
    (((schema ["first", "second"]).mapping.extent? (.entitySet key.entitySet)).bind
      (·.typeView? key.type key.includeSubtypes)).map TypeView.text = some "first" :=
  ⟨build_eq, rfl, rfl⟩

end Rewritten

/-! ## Two ways to a view -/

/-- **Views are found in either way.** Let declarations that move no mapping to another extent build
a schema. Then

* the map of the user's views has a view of an extent exactly if the mapping of the extent has a
  view, and with its text;
* it has a view for a type of an entity set exactly if the mapping of the set has one for the type.
  That is the last such view of the mapping, and if there is one only, it is the view that the
  mapping gives. -/
theorem Schema.get?_userViews_of_build {s : Schema} {declarations : List Declaration}
    {ids : List Issued} (h : Schema.build declarations = .ok (s, ids))
    (hstays : ∀ e edit, .mapExtent e edit ∈ declarations → edit.Stays) :
    (∀ e, (UserViews.ofMapping s.mapping).get? (.extent e) =
      ((s.mapping.extent? e).bind ExtentMapping.queryView).map fun text =>
        .ofText (.extent e) text .userDefined) ∧
    ∀ k : TypeKey,
      let held := (UserViews.ofMapping s.mapping).get? (.ofType k)
      let entry := s.mapping.extent? (.entitySet k.entitySet)
      let first := entry.bind (·.typeView? k.type k.includeSubtypes)
      let last := entry.bind (·.lastTypeView? k.type k.includeSubtypes)
      held.isSome = first.isSome ∧
      held = (last.map fun v => .ofText (.ofType k) v.text .userDefined) ∧
      ((∀ m ∈ entry, m.TypedOnce k.type k.includeSubtypes) →
        held = first.map fun v => .ofText (.ofType k) v.text .userDefined) := by
  have hm := filed_of_build h hstays
  refine ⟨hm.get?_extent, fun k => ?_⟩
  intro held entry first last
  have hheld : held = last.map fun v => .ofText (.ofType k) v.text .userDefined := hm.get?_ofType k
  refine ⟨?_, hheld, fun honce => ?_⟩
  · rw [hheld, Option.isSome_map, Option.isSome_bind, Option.isSome_bind]
    simp only [ExtentMapping.isSome_lastTypeView?]
  · have hsame : last = first := Option.bind_congr fun m hentry => (honce m hentry).lastTypeView?_eq
    rw [hheld, hsame]

/-- Of two views of one type the map has the later one, beside that of the whole set; where there is
one, it is the view that the mapping gives. -/
theorem Schema.rewritten_get?_userViews :
    (UserViews.ofMapping (Rewritten.schema ["first", "second"]).mapping).get?
        (.extent (.entitySet ⟨⟨0⟩, 0⟩)) =
      some (.ofText (.extent (.entitySet ⟨⟨0⟩, 0⟩)) "all" .userDefined) ∧
    (UserViews.ofMapping (Rewritten.schema ["first", "second"]).mapping).get?
        (.ofType Rewritten.key) =
      some (.ofText (.ofType Rewritten.key) "second" .userDefined) ∧
    (UserViews.ofMapping (Rewritten.schema ["first"]).mapping).get? (.ofType Rewritten.key) =
      some (.ofText (.ofType Rewritten.key) "first" .userDefined) := by
  obtain ⟨hextents, htypes⟩ := get?_userViews_of_build Rewritten.build_eq (Rewritten.stays _)
  obtain ⟨-, honce⟩ := get?_userViews_of_build Rewritten.build_eq_once (Rewritten.stays _)
  refine ⟨hextents _, (htypes Rewritten.key).2.1, (honce Rewritten.key).2.2 ?_⟩
  rintro m hm
  cases hm
  decide

/-- A mapping that was moved to a set of another container is in the map, but is not found for that
set. -/
example : (Schema.build [.entity "Order", .field .key ⟨0⟩ "Id" .int32, .container "Shop",
      .container "Archive", .entitySet ⟨0⟩ "Orders" ⟨0⟩, .entitySet ⟨1⟩ "Orders" ⟨0⟩,
      .storeContainer "Db", .mapContainers ⟨0⟩ ⟨0⟩,
      .mapExtent (.entitySet ⟨⟨0⟩, 0⟩) (.queryView "moved"),
      .mapExtent (.entitySet ⟨⟨0⟩, 0⟩) (.extent (.entitySet ⟨⟨1⟩, 0⟩))]).map (fun built =>
    (((UserViews.ofMapping built.1.mapping).get? (.extent (.entitySet ⟨⟨1⟩, 0⟩))).map View.text,
      (built.1.mapping.extent? (.entitySet ⟨⟨1⟩, 0⟩)).isSome)) = .ok (some "moved", false) := by
  cbv

end QueryViews
