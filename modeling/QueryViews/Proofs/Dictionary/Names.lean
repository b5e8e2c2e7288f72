import QueryViews.Proofs.Dictionary.Adoption
import QueryViews.Proofs.Dictionary.Holdings
import QueryViews.Proofs.Schema.Names

/-!
# Views under the names of their extents

Views are exported under the qualified names of their extents, and adopted by looking the names up
again. Views that get lost on the way, or end up with another extent, did not **come back**
(`Dictionary.ComesBack`). All views of a pair come back exactly if each extent of the pair is found
under its own name, which is a matter of the names of its tables
(`Schema.Built.identifies_iff`). Nothing keeps two tables from having one name (`Logs`).
-/

namespace QueryViews

variable {ω : Type} {d : Dictionary ω} {id : ContainerId} {extents : List Extent}
  {names : OrderedMap String Extent} {views : PairViews}

namespace Dictionary

/-- Exported under their names and adopted from there, the views are again those of their extents,
with their texts. -/
def ComesBack (d : Dictionary ω) (extents : List Extent) (names : OrderedMap String Extent)
    (views : PairViews) : Prop :=
  ∃ texts, d.textsByName views = .ok texts ∧
    ∀ pair hash, ∃ named adopted, namedTexts names ⟨pair, hash, texts⟩ = some named ∧
      addTexts .empty named = .ok adopted ∧
      ∀ e ∈ extents, adopted.get? e =
        (views.get? e).map fun v => .ofText (.extent e) v.value.text .preGenerated

/-- Views whose extents have names can be told by them. -/
theorem exists_textsByName (h : ∀ e v, views.get? e = some v → ∃ n, d.schema.extentName e = .ok n) :
    ∃ texts, d.textsByName views = .ok texts := by
  have hnamed : ∀ p ∈ views.entries, ∃ t, (do
      return (← d.schema.extentName p.1, p.2.value.text)) =
        (.ok t : Except Fault (String × String)) := by
    intro p hp
    obtain ⟨n, hn⟩ := h p.1 p.2 (OrderedMap.get?_eq_some_iff.2 hp)
    exact ⟨(n, p.2.value.text), bind_eq_ok_iff.2 ⟨n, hn, rfl⟩⟩
  obtain ⟨texts, htexts⟩ := exists_mapM_eq_ok hnamed
  exact ⟨.ofList texts, bind_eq_ok_iff.2 ⟨texts, htexts, rfl⟩⟩

/-- Where each extent is found under its own name, all views come back. -/
theorem comesBack_of_identifies (h : d.schema.extents id = .ok extents)
    (hnames : d.schema.extentsByName id = .ok names) (hid : d.schema.Identifies extents names)
    (hwithin : ∀ e v, views.get? e = some v → e ∈ extents) : d.ComesBack extents names views := by
  have hnamed : ∀ e v, views.get? e = some v → ∃ n, d.schema.extentName e = .ok n := by
    intro e v hv
    obtain ⟨n, hn, -⟩ := hid e (hwithin e v hv)
    exact ⟨n, hn⟩
  obtain ⟨texts, htexts⟩ := d.exists_textsByName hnamed
  have hknown : ∀ n ∈ texts.keys, ∃ e, names.get? n = some e := by
    intro n hn
    obtain ⟨t, ht⟩ := OrderedMap.exists_get?_iff.2 hn
    obtain ⟨e, v, hv, hname, -⟩ := exists_of_get?_textsByName htexts ht
    obtain ⟨n', hname', hget⟩ := hid e (hwithin e v hv)
    cases hname.symm.trans hname'
    exact ⟨e, hget⟩
  refine ⟨texts, htexts, fun pair hash => ?_⟩
  obtain ⟨named, adopted, hnamed, hadopted, -, hget⟩ :=
    exists_adopted (a := ⟨pair, hash, texts⟩) hknown fun _ _ _ =>
      Schema.name_eq_of_extentsByName h hnames
  refine ⟨named, adopted, hnamed, hadopted, fun e he => ?_⟩
  obtain ⟨n, hn, hfound⟩ := hid e he
  rw [hget n e hfound, get?_textsByName htexts hwithin (hid.sole he hn), Option.map_map]
  rfl

/-- A view that comes back is found under the name of its extent. -/
theorem get?_of_comesBack {v : Published View} {e : Extent} {n : String} (he : e ∈ extents)
    (hn : d.schema.extentName e = .ok n) (h : d.ComesBack extents names (.ofList [(e, v)])) :
    names.get? n = some e := by
  obtain ⟨texts, htexts, h⟩ := h
  obtain ⟨named, adopted, hnamed, hadopted, hget⟩ := h "" ""
  have hone : d.textsByName (.ofList [(e, v)]) = .ok (.ofList [(n, v.value.text)]) :=
    bind_eq_ok_iff.2 ⟨[(n, v.value.text)],
      mapM_eq_ok_iff.2 (.cons (bind_eq_ok_iff.2 ⟨n, hn, rfl⟩) .nil), rfl⟩
  cases htexts.symm.trans hone
  -- the only text is adopted for the extent that is found under its name
  rcases namedTexts_eq_some_iff.1 hnamed with _ | ⟨⟨hfound, -⟩, hrest⟩
  cases hrest
  cases hadopted
  have hview : (OrderedMap.ofList [(e, v)]).get? e = some v :=
    (OrderedMap.get?_insert .empty e e v).trans (if_pos rfl)
  have hadopted := hget e he
  rw [OrderedMap.get?_insert, hview] at hadopted
  split at hadopted
  · rename_i heq
    exact heq ▸ hfound
  · cases hadopted

end Dictionary

/-! ## A log with two tables -/

namespace Logs

/-- A store container with a table for each of the names. -/
def declarations (names : List String) : List Declaration :=
  [.container "Shop", .storeContainer "Db"] ++ names.map (.table ⟨0⟩) ++ [.mapContainers ⟨0⟩ ⟨0⟩]

/-- The schema that they make. -/
def schema (first second : String) : Schema where
  conceptual := ⟨[], [], [⟨"Shop", [], []⟩]⟩
  store := ⟨[⟨"Db", [⟨0⟩, ⟨1⟩]⟩], [⟨⟨0⟩, first, [], []⟩, ⟨⟨0⟩, second, [], []⟩]⟩
  mapping := ⟨[⟨⟨0⟩, ⟨0⟩, []⟩]⟩

/-- The ids that are issued on the way. -/
def issued : List Issued := [.container ⟨0⟩, .store ⟨0⟩, .table ⟨0⟩, .table ⟨1⟩, .nothing]

theorem built (first second : String) : (schema first second).Built :=
  ⟨declarations [first, second], issued, by cbv⟩

/-- Of two tables of one name, only the second one is found. -/
theorem table_lost : Schema.build (declarations ["Log", "Log"]) = .ok (schema "Log" "Log", issued) ∧
    (schema "Log" "Log").extents ⟨0⟩ = .ok [.table ⟨0⟩, .table ⟨1⟩] ∧
    (schema "Log" "Log").extentName (.table ⟨0⟩) = .ok "Db.Log" ∧
    (schema "Log" "Log").extentsByName ⟨0⟩ = .ok (.ofList [("Db.Log", .table ⟨1⟩)]) :=
  ⟨by cbv, rfl, rfl, rfl⟩

end Logs

/-! ## Names that identify -/

/-- **When names identify the extents of a pair.** In a built schema, every extent of a mapped pair
is found under its own qualified name exactly if

* no two tables of the store container have one name, and
* no table has the qualified name of a set of the container;

and this is so exactly if all views of extents of the pair, exported under the names and adopted
again, come back. -/
theorem Schema.Built.identifies_iff {s : Schema} (hs : s.Built) {id : ContainerId}
    {m : ContainerMapping} {owner : Container} (hm : s.mapping.container? id = some m)
    (howner : s.conceptual.container id = .ok owner) :
    ∃ store tables extents names, s.store.container m.store = .ok store ∧
      s.store.tablesIn m.store = .ok tables ∧ s.extents id = .ok extents ∧
      s.extentsByName id = .ok names ∧
      (s.Identifies extents names ↔ (tables.map fun p => p.2.name).Nodup ∧
        ∀ name ∈ extentNames owner, ∀ p ∈ tables,
          s!"{owner.name}.{name}" ≠ s!"{store.name}.{p.2.name}") ∧
      (s.Identifies extents names ↔ ∀ (ω : Type) (d : Dictionary ω), d.schema = s →
        ∀ views : PairViews, (∀ e v, views.get? e = some v → e ∈ extents) →
          d.ComesBack extents names views) := by
  obtain ⟨store, tables, hstore, htables⟩ := hs.exists_tablesIn (List.mem_of_find?_eq_some hm)
  obtain ⟨hextents, hns⟩ := hs.extents_named hm howner hstore htables
  obtain ⟨names, hnames, -⟩ := exists_extentsByName hextents hns
  refine ⟨store, tables, _, names, hstore, htables, hextents, hnames, ?_, ?_⟩
  · rw [identifies_iff_nodup (hs.nodup_extents hextents) hextents hns hnames]
    exact nodup_qualifiedNames_iff
      (hs.verified.nodup_extentNames (List.mem_of_getElem? (found_eq_ok_iff.1 howner)))
  · constructor
    · rintro hid ω d rfl views hwithin
      exact Dictionary.comesBack_of_identifies hextents hnames hid hwithin
    · intro hall e he
      obtain ⟨n, -, hn⟩ := exists_mem_of_mapM hns he
      let d : Dictionary Unit := ⟨s, ⟨true, true, true⟩, fun _ => pure ⟨.empty, []⟩, true, .empty⟩
      refine ⟨n, hn, Dictionary.get?_of_comesBack (d := d) he hn (v := ⟨0, .ofText (.extent e) ""
        .runtime⟩) (hall Unit d rfl _ fun e' v hv => ?_)⟩
      cases List.mem_singleton.1 (OrderedMap.mem_of_get?_ofList hv)
      exact he

/-- Two tables of different names are both found. -/
theorem Schema.logs_identified :
    ∃ extents names, (Logs.schema "Log" "Audit").extents ⟨0⟩ = .ok extents ∧
      (Logs.schema "Log" "Audit").extentsByName ⟨0⟩ = .ok names ∧
      (Logs.schema "Log" "Audit").Identifies extents names := by
  have hm : (Logs.schema "Log" "Audit").mapping.container? ⟨0⟩ = some ⟨⟨0⟩, ⟨0⟩, []⟩ := rfl
  obtain ⟨store, tables, extents, names, hstore, htables, hextents, hnames, hiff, -⟩ :=
    (Logs.built "Log" "Audit").identifies_iff hm rfl
  cases hstore
  cases htables
  exact ⟨extents, names, hextents, hnames, hiff.2 ⟨by decide, List.forall_mem_nil _⟩⟩

end QueryViews
