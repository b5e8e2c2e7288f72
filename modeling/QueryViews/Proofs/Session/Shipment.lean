import QueryViews.Proofs.Schema.Names
import QueryViews.Proofs.Session.RoundTrip

/-!
# Artifacts that are shipped together

The artifacts of several pairs of one schema are shipped together, and a search tells them apart by
the names of their pairs only. As long as no two pairs have one name (`Schema.PairsApart`), a
search comes across no artifact but that of its own pair, so none that it comes across was made from
another mapping.
-/

namespace QueryViews

variable {α ω : Type}

/-- The artifact has the name and the hash of the pair of a container. -/
def Schema.Exported (s : Schema) (id : ContainerId) (a : Artifact) : Prop :=
  s.pairName id = .ok a.pair ∧ ∃ h, ClosureHash.compute s id = .ok (some h) ∧ a.hash = h.text

/-- No two pairs have one name. -/
def Schema.PairsApart (s : Schema) : Prop :=
  ∀ id id' pair, s.pairName id = .ok pair → s.pairName id' = .ok pair → id = id'

/-- Artifacts of different pairs, each with the name and the hash of its own. -/
structure Schema.Shipment (s : Schema) (arts : List (ContainerId × Artifact)) : Prop where
  nodup : (arts.map Prod.fst).Nodup
  exported : ∀ p ∈ arts, s.Exported p.1 p.2

/-- What a dictionary exports has the name and the hash of the pair. -/
theorem Session.Run.exported {s₀ s s' : Session α ω} {events : List Event} {place : Nat}
    {d : Dictionary ω} {schema : Schema} {config : Config} {shares : Bool} {id : ContainerId}
    {a : Artifact} (run : s₀.Run events s) (hstarts : s₀.Starts place d schema config shares)
    (hc : schema.canonicalContainer? (.conceptual id) = some id)
    (hexport : s.step place (.exportViews id) = some (.ok (.artifact a), s')) :
    schema.Exported id a := by
  obtain ⟨-, h, -, -, hcompute, hpair, hhash, -⟩ := run.exists_exported hstarts hc hexport
  exact ⟨hpair, h, hcompute, hhash⟩

namespace Schema.Shipment

variable {s : Schema} {arts : List (ContainerId × Artifact)} {id : ContainerId} {pair : String}

/-- What is shown of a shipment under the name of a pair is what was exported for the pair. -/
theorem filter_shown (h : s.Shipment arts) (hapart : s.PairsApart)
    (hpair : s.pairName id = .ok pair) {shown : List Artifact}
    (hshown : shown.Perm (arts.map Prod.snd)) :
    (shown.filter (·.pair = pair)).Perm ((arts.filter (·.1 = id)).map Prod.snd) := by
  have hown : (arts.filter fun p => p.2.pair = pair) = arts.filter (·.1 = id) := by
    refine List.filter_congr fun p hp => decide_eq_decide.2 ⟨?_, ?_⟩
    · rintro rfl
      exact hapart _ _ _ (h.exported p hp).1 hpair
    · rintro rfl
      exact Except.ok.inj ((h.exported p hp).1.symm.trans hpair)
  have hfilter := hshown.filter (·.pair = pair)
  rw [List.filter_map] at hfilter
  exact hown ▸ hfilter

/-- A shipment has one artifact of a pair. -/
theorem filter_eq_singleton (h : s.Shipment arts) {a : Artifact} (ha : (id, a) ∈ arts) :
    arts.filter (·.1 = id) = [(id, a)] := by
  refine List.perm_singleton.1 ((List.perm_ext_iff_of_nodup (h.nodup.of_map.filter _)
    (List.nodup_singleton _)).2 fun p => ?_)
  rw [List.mem_filter, List.mem_singleton, decide_eq_true_iff]
  constructor
  · rintro ⟨hp, hid⟩
    exact List.inj_on_of_nodup_map h.nodup hp ha hid
  · rintro rfl
    exact ⟨ha, rfl⟩

end Schema.Shipment

/-! ## The search for a pair in a shipment -/

namespace Reference

variable {ref : Reference α} {arts : List (ContainerId × Artifact)} {id : ContainerId}

/-- The search ends well, and adopts what was exported for the pair: nothing if nothing was, and all
of it if it names only extents of the pair. -/
theorem exists_lookup_of_shipment (hs : ref.schema.Built) (hapart : ref.schema.PairsApart)
    (hship : ref.schema.Shipment arts)
    (hshown : (ref.assemblies.flatMap ref.readable).Perm (arts.map Prod.snd))
    {extents : List Extent} (hextents : ref.schema.extents id = .ok extents) :
    ∃ adopted, ref.lookup id = .ok adopted ∧
      ((∀ a, (id, a) ∉ arts) → adopted = .empty) ∧
      ∀ a, (id, a) ∈ arts →
        (∀ n ∈ a.views.keys, ∃ e ∈ extents, ref.schema.extentName e = .ok n) →
        adopted.size = a.views.size ∧ ∀ n e, ref.schema.Sole extents n e →
          adopted.get? e = (a.views.get? n).map fun t => .ofText (.extent e) t .preGenerated := by
  obtain ⟨pair, ns, hpair, hns⟩ := hs.exists_extentNames hextents
  obtain ⟨names, hnames, hfinds⟩ := Schema.exists_extentsByName hextents hns
  have hfilter := hship.filter_shown hapart hpair hshown
  by_cases hsome : ∃ a, (id, a) ∈ arts
  · obtain ⟨a, ha⟩ := hsome
    obtain ⟨hname, h, hlive, hhash⟩ := hship.exported _ ha
    obtain rfl : a.pair = pair := Except.ok.inj (hname.symm.trans hpair)
    rw [hship.filter_eq_singleton ha] at hfilter
    obtain ⟨adopted, hlookup, hwhole⟩ := ref.exists_lookup (List.perm_singleton.1 hfilter) hpair
      (hhash ▸ h.parse_text) hlive hnames fun _ _ _ =>
        Schema.name_eq_of_extentsByName hextents hnames
    refine ⟨adopted, hlookup, fun hnone => absurd ha (hnone a), fun a' ha' hknown => ?_⟩
    -- one artifact was exported for each pair
    cases List.inj_on_of_nodup_map hship.nodup ha ha' rfl
    obtain ⟨hsize, hget⟩ := hwhole fun n hn => by
      obtain ⟨e, he, hname⟩ := hknown n hn
      obtain ⟨n', hn', hname'⟩ := exists_mem_of_mapM hns he
      cases hname.symm.trans hname'
      exact hfinds n hn'
    exact ⟨hsize, fun n e hsole => hget n e (hsole.get?_eq_some hextents hns hnames)⟩
  · have hnone : arts.filter (·.1 = id) = [] := List.filter_eq_nil_iff.2 fun p hp heq =>
      hsome ⟨p.2, of_decide_eq_true heq ▸ hp⟩
    rw [hnone] at hfilter
    exact ⟨.empty, lookup_of_none hpair (List.perm_nil.1 hfilter), fun _ => rfl,
      fun a ha => absurd ⟨a, ha⟩ hsome⟩

/-- The views of a pair are those that the search found, or those that the generator makes. They are
those that were found as long as no search found nothing. -/
theorem pairViews_of_lookup {adopted : OrderedMap Extent View} (h : ref.lookup id = .ok adopted)
    (asked : List ContainerId) :
    (ref.pairViews asked id = .ok adopted ∨ ref.pairViews asked id = ref.generated id) ∧
      (ref.config.preGeneratedViews = true → (∀ j ∈ id :: asked, ref.lookup j ≠ .ok .empty) →
        ref.pairViews asked id = .ok adopted) := by
  have hsearched : ref.viewsIn .generatedViews id =
      if adopted.isEmpty then ref.generated id else .ok adopted := by
    rw [viewsIn, h]
    rfl
  constructor
  · rw [pairViews]
    cases ref.modeAfter (asked.takeWhile (· ≠ id)) with
    | runtimeGeneration => exact .inr rfl
    | generatedViews =>
      rw [hsearched]
      cases adopted.isEmpty with
      | true => exact .inr rfl
      | false => exact .inl rfl
  -- nothing was asked for yet that the search found empty, so it goes on searching
  · intro hconfig hfound
    have hmode : ref.modeAfter (asked.takeWhile (· ≠ id)) = .generatedViews := by
      cases hmode : ref.modeAfter (asked.takeWhile (· ≠ id)) with
      | generatedViews => rfl
      | runtimeGeneration =>
        rcases modeAfter_eq_runtimeGeneration_iff.1 hmode with hoff | ⟨j, hj, hnone⟩
        · cases hconfig.symm.trans hoff
        · exact absurd hnone
            (hfound j (List.mem_cons_of_mem _ ((List.takeWhile_prefix _).subset hj)))
    have hsome : adopted.isEmpty = false := by
      refine Bool.eq_false_iff.2 fun hempty => ?_
      have hvacant : ref.vacant id = true := by rw [vacant, h]; exact hempty
      exact hfound id List.mem_cons_self (vacant_iff.1 hvacant)
    rw [pairViews, hmode, hsearched, hsome]
    rfl

/-- The reply to a question for an extent, given the views of its pair. -/
def replyAmong (views : OrderedMap Extent View) (e : Extent) (name : String) :
    Except (Failure Error) Reply :=
  match views.get? e with
  | some v => .ok (.view v)
  | none => refuse (.viewNotGenerated name)

/-- What is asked of an extent of a pair is answered from the views of the pair. -/
theorem reply?_of_route {asked : List ContainerId} {e : Extent} {name : String}
    (hroute : ref.route e = .ok (.pair id)) (hname : ref.schema.extentName e = .ok name) :
    ref.reply? asked (.getView e) =
      some (ref.pairViews asked id >>= fun views => replyAmong views e name) := by
  rw [reply?, view, hroute]
  change some (Reply.view <$> (ref.pairViews asked id >>= fun views => _)) = _
  cases ref.pairViews asked id with
  | error f => rfl
  | ok views =>
    change some (Reply.view <$> (match views.get? e with | some view => _ | none => _)) =
      some (replyAmong views e name)
    rw [replyAmong, hname]
    cases views.get? e <;> rfl

end Reference

/-! ## Sessions that are shown a shipment -/

/-- In a session of new dictionaries a shipment of artifacts of a schema is all that is shown, and
the dictionary at a place is over that schema and searches for artifacts. -/
structure Session.Shipped (s₀ : Session α ω) (su : Surroundings α) (s : Schema)
    (arts : List (ContainerId × Artifact)) (place : Nat) (d : Dictionary ω) : Prop where
  shipment : s.Shipment arts
  shown : (su.assemblies.flatMap fun assembly =>
    (su.artifacts assembly).toOption.getD []).Perm (arts.map Prod.snd)
  steady : su.Steady s₀
  fresh : s₀.Fresh
  placed : ∃ tables, s₀.dictionaries[place]? = some (d, tables)
  schema : d.schema = s
  shares : d.sharesAssemblies = true
  searches : d.config.preGeneratedViews = true

namespace Session.Shipped

variable {s₀ t : Session α ω} {su : Surroundings α} {s : Schema}
  {arts : List (ContainerId × Artifact)} {d : Dictionary ω} {e : Event}

/-- Where no two pairs have one name, a question for an extent of a pair is answered from what the
search for the pair found, or from what the generator makes. -/
theorem reply_eq (h : s₀.Shipped su s arts e.place d) (hs : s.Built) (hapart : s.PairsApart)
    {events before after : List Event} (run : s₀.Run events t)
    (hevents : events = before ++ e :: after) {id : ContainerId} {extents : List Extent}
    {x : Extent} (hextents : s.extents id = .ok extents) (hx : x ∈ extents)
    (hroute : d.route x = .ok (.pair id)) (hstep : e.step = .getView x) :
    let ref := su.reference s₀.host.name e.place d
    ∃ adopted n, ref.lookup id = .ok adopted ∧ s.extentName x = .ok n ∧
      (∀ a, (id, a) ∈ arts → (∀ n ∈ a.views.keys, ∃ e ∈ extents, s.extentName e = .ok n) →
        adopted.size = a.views.size ∧ ∀ n e, s.Sole extents n e →
          adopted.get? e = (a.views.get? n).map fun t => .ofText (.extent e) t .preGenerated) ∧
      (e.reply = Reference.replyAmong adopted x n ∨
        e.reply = ref.generated id >>= fun views => Reference.replyAmong views x n) ∧
      ((∀ j ∈ id :: d.askedAt e.place before, ref.lookup j ≠ .ok .empty) →
        e.reply = Reference.replyAmong adopted x n) := by
  intro ref
  obtain ⟨tables, hd⟩ := h.placed
  obtain ⟨d', _, hd', hreply⟩ := run.reply_eq h.steady h.fresh hevents
  cases hd.symm.trans hd'
  obtain ⟨schema, config, generator, shares, hstart⟩ := h.fresh d tables (List.mem_of_getElem? hd)
  have hroute : ref.route x = .ok (.pair id) := by
    rw [(h.steady.describes hd hstart).route, hroute]
    rfl
  -- what the assemblies show is the shipment, in some order
  have hshown : (ref.assemblies.flatMap ref.readable).Perm (arts.map Prod.snd) := by
    rw [show ref.assemblies = su.assemblies from if_pos h.shares]
    exact h.shown
  obtain rfl : ref.schema = s := h.schema
  obtain ⟨adopted, hlookup, -, hown⟩ :=
    ref.exists_lookup_of_shipment hs hapart h.shipment hshown hextents
  obtain ⟨-, ns, -, hns⟩ := hs.exists_extentNames hextents
  obtain ⟨n, -, hn⟩ := exists_mem_of_mapM hns hx
  have hreply : e.reply = ref.pairViews (d.askedAt e.place before) id >>= fun views =>
      Reference.replyAmong views x n :=
    hreply _ (hstep ▸ ref.reply?_of_route hroute hn)
  obtain ⟨hviews, hfound⟩ := ref.pairViews_of_lookup hlookup (d.askedAt e.place before)
  refine ⟨adopted, n, hlookup, hn, hown, ?_, fun hsome => ?_⟩
  · rw [hreply]
    rcases hviews with hviews | hviews
    · exact .inl (by rw [hviews]; rfl)
    · exact .inr (by rw [hviews])
  · rw [hreply, hfound h.searches hsome]
    rfl

end Session.Shipped

/-! ## Two ports -/

namespace Ports

/-- Two pairs of containers with a table each. -/
def declarations (north south northStore southStore : String) : List Declaration := [
  .container north, .container south, .storeContainer northStore, .storeContainer southStore,
  .table ⟨0⟩ "Ships", .table ⟨1⟩ "Ships", .mapContainers ⟨0⟩ ⟨0⟩, .mapContainers ⟨1⟩ ⟨1⟩]

/-- The schema that they make. -/
def schema (north south northStore southStore : String) : Schema where
  conceptual := ⟨[], [], [⟨north, [], []⟩, ⟨south, [], []⟩]⟩
  store := ⟨[⟨northStore, [⟨0⟩]⟩, ⟨southStore, [⟨1⟩]⟩],
    [⟨⟨0⟩, "Ships", [], []⟩, ⟨⟨1⟩, "Ships", [], []⟩]⟩
  mapping := ⟨[⟨⟨0⟩, ⟨0⟩, []⟩, ⟨⟨1⟩, ⟨1⟩, []⟩]⟩

/-- The ids that are issued on the way. -/
def issued : List Issued := [
  .container ⟨0⟩, .container ⟨1⟩, .store ⟨0⟩, .store ⟨1⟩, .table ⟨0⟩, .table ⟨1⟩, .nothing,
  .nothing]

/-- With colons in the names of containers, two pairs have one name. -/
theorem pairs_confused :
    Schema.build (declarations "A" "A:B" "B:C" "C") = .ok (schema "A" "A:B" "B:C" "C", issued) ∧
    (schema "A" "A:B" "B:C" "C").pairName ⟨0⟩ = .ok "A:B:C" ∧
    (schema "A" "A:B" "B:C" "C").pairName ⟨1⟩ = .ok "A:B:C" :=
  ⟨by cbv, rfl, rfl⟩

/-- Two ports under names that differ. -/
def twoPorts : Schema := schema "North" "South" "NorthDb" "SouthDb"

theorem built : twoPorts.Built :=
  ⟨declarations "North" "South" "NorthDb" "SouthDb", issued, by cbv⟩

/-- What is said of a port. -/
def content (port store : String) : Content :=
  ⟨port, store, [], [], [], [], [⟨"Ships", []⟩], []⟩

theorem content_eq : twoPorts.content ⟨0⟩ = .ok (some (content "North" "NorthDb")) ∧
    twoPorts.content ⟨1⟩ = .ok (some (content "South" "SouthDb")) :=
  ⟨by cbv, by cbv⟩

/-- The two pairs have names that differ. -/
theorem pairName_eq : twoPorts.pairName ⟨0⟩ = .ok "North:NorthDb" ∧
    twoPorts.pairName ⟨1⟩ = .ok "South:SouthDb" :=
  ⟨by cbv, by cbv⟩

/-- The artifact of a port, with the name of the port for a text. -/
def artifact (port store : String) : Artifact where
  pair := s!"{port}:{store}"
  hash := (ClosureHash.ofContent (content port store)).text
  views := .ofList [(s!"{store}.Ships", port)]

/-- An artifact for each port. -/
def artifacts : List (ContainerId × Artifact) :=
  [(⟨0⟩, artifact "North" "NorthDb"), (⟨1⟩, artifact "South" "SouthDb")]

theorem shipment : twoPorts.Shipment artifacts where
  nodup := by decide
  exported := by
    intro p hp
    rcases List.mem_pair.1 hp with rfl | rfl
    · exact ⟨pairName_eq.1, _, ClosureHash.compute_of_content content_eq.1, rfl⟩
    · exact ⟨pairName_eq.2, _, ClosureHash.compute_of_content content_eq.2, rfl⟩

/-- No two pairs of the ports have one name. -/
theorem pairsApart : twoPorts.PairsApart := by
  have hne {pair : String} (hnorth : twoPorts.pairName ⟨0⟩ = .ok pair) :
      twoPorts.pairName ⟨1⟩ ≠ .ok pair := fun hsouth =>
    absurd (Except.ok.inj (pairName_eq.1.symm.trans (hnorth.trans (hsouth.symm.trans
      pairName_eq.2)))) (by decide)
  rintro ⟨_ | _ | i⟩ ⟨_ | _ | j⟩ pair hi hj
  · rfl
  · exact absurd hj (hne hi)
  · cases hj
  · exact absurd hi (hne hj)
  · rfl
  · cases hj
  all_goals cases hi

/-- A generator that makes nothing. -/
def generated : Generated := ⟨.empty, []⟩

/-- One assembly with the artifacts of both ports. -/
def surroundings : Surroundings Unit :=
  ⟨[()], fun _ => .ok (artifacts.map Prod.snd), fun _ _ => .ok generated⟩

/-- A dictionary of the ports that searches for artifacts. -/
def dictionary : Dictionary Unit :=
  ⟨twoPorts, ⟨true, true, true⟩, fun _ => pure generated, true, .empty⟩

/-- The tables of a new dictionary. -/
def tables : Tables := ⟨.generatedViews, .empty, .empty, .empty, .empty, .empty, [], 0⟩

theorem start : Dictionary.start twoPorts ⟨true, true, true⟩ (some fun _ => pure generated) true =
    .ok (dictionary, tables) :=
  rfl

/-- The dictionary among those surroundings. -/
def session : Session Unit Unit where
  host := ⟨fun _ => "Views", pure [()], fun _ => pure (artifacts.map Prod.snd)⟩
  dictionaries := [(dictionary, tables)]
  cache := none
  world := ()

/-- The artifacts are a shipment, and nothing else is shown. -/
theorem shipped : session.Shipped surroundings twoPorts artifacts 0 dictionary where
  shipment := shipment
  shown := .refl _
  steady := by
    refine ⟨.none _, fun _ => .refl _, fun _ _ => .refl _, fun place d tables hd q w => ?_⟩
    rcases place with _ | place
    · cases hd
      exact .refl _
    · cases hd
  fresh := by
    intro d tables h
    cases List.mem_singleton.1 h
    exact ⟨_, _, _, _, start⟩
  placed := ⟨_, rfl⟩
  schema := rfl
  shares := rfl
  searches := rfl

/-- The table of the north. -/
def ships : Extent := .table ⟨0⟩

theorem extents_eq : twoPorts.extents ⟨0⟩ = .ok [ships] := by cbv

/-- The name of the ships of the north belongs to one extent. -/
theorem sole_ships : twoPorts.Sole [ships] "NorthDb.Ships" ships :=
  ⟨List.mem_singleton_self _, by cbv, fun _ he _ => List.mem_singleton.1 he⟩

/-- All that was exported for the north is known there. -/
theorem known : ∀ n ∈ (artifact "North" "NorthDb").views.keys,
    ∃ e ∈ [ships], twoPorts.extentName e = .ok n := by
  intro n hn
  obtain rfl : n = "NorthDb.Ships" := List.mem_singleton.1 hn
  exact ⟨ships, List.mem_singleton_self _, sole_ships.2.1⟩

/-- The dictionary can be asked for the table. -/
theorem run : ∃ answer t, session.Run [⟨0, .getView ships, .ok answer⟩] t := by
  let ref := surroundings.reference session.host.name 0 dictionary
  have hextents : ref.schema.extents ⟨0⟩ = .ok [ships] := extents_eq
  obtain ⟨adopted, hlookup, -, hown⟩ := ref.exists_lookup_of_shipment built pairsApart shipment
    (.refl _) hextents
  obtain ⟨-, hget⟩ := hown _ List.mem_cons_self known
  have hship : adopted.get? ships = some (.ofText (.extent ships) "North" .preGenerated) :=
    hget _ _ sole_ships
  have hfound : ref.lookup ⟨0⟩ ≠ .ok .empty := by
    rintro hempty
    cases hlookup.symm.trans hempty
    cases hship
  have hreply : ref.reply? [] (.getView ships) =
      some (.ok (.view (.ofText (.extent ships) "North" .preGenerated))) := by
    rw [ref.reply?_of_route rfl sole_ships.2.1,
      (ref.pairViews_of_lookup hlookup []).2 rfl fun j hj => List.mem_singleton.1 hj ▸ hfound]
    change some (Reference.replyAmong adopted _ _) = _
    rw [Reference.replyAmong, hship]
  -- the dictionary is new, so it answers as the reference does, which finds the text
  have hdescribes : ref.Describes False dictionary session.host :=
    ⟨⟨rfl, rfl, rfl, rfl, fun _ => .refl _, fun _ _ => .refl _⟩, fun _ _ => .refl _⟩
  have houtcome := (hdescribes.perform (Reference.remembers_start start rfl (.none _) ())
    (.getView ships)).1 _ hreply
  rcases hperform : dictionary.perform session.host (.getView ships) ⟨tables, none, ()⟩ with ⟨r, sc⟩
  rw [hperform] at houtcome
  obtain houtcome | ⟨hlapse, -⟩ := houtcome
  · rcases r with (e | f) | answer
    · cases houtcome
    · cases houtcome
    · exact ⟨answer, _, .step .start (Session.step_of_perform rfl hperform)⟩
  · exact hlapse.elim

end Ports

/-! ## Names that tell pairs apart -/

/-- **When names tell pairs apart.** In a built schema, two different mapped containers have pairs
of one name exactly if the name of one of them is that of the other with a colon and more behind it,
and that more, with a colon, is what the name of the other store container has in front. If no two
pairs have one name, then new dictionaries that search for artifacts, and are shown a shipment of
artifacts of the schema, answer as follows when they are asked for an extent of a pair:

* the search for the pair ends well, with what was exported for the pair if that names only extents
  of the pair;
* the answer comes from what was found, or from what the generator makes;
* it comes from what was found as long as no search found nothing. -/
theorem Schema.Built.pairs_apart {s : Schema} (hs : s.Built) :
    (∀ id id' m m' owner other, id ≠ id' → s.mapping.container? id = some m →
      s.mapping.container? id' = some m' → s.conceptual.container id = .ok owner →
      s.conceptual.container id' = .ok other → ∃ store otherStore,
        s.store.container m.store = .ok store ∧ s.store.container m'.store = .ok otherStore ∧
        s.pairName id = .ok s!"{owner.name}:{store.name}" ∧
        s.pairName id' = .ok s!"{other.name}:{otherStore.name}" ∧
        (s.pairName id = s.pairName id' ↔ ∃ part : String,
          (owner.name = s!"{other.name}:{part}" ∧ otherStore.name = s!"{part}:{store.name}") ∨
            (other.name = s!"{owner.name}:{part}" ∧ store.name = s!"{part}:{otherStore.name}"))) ∧
    (s.PairsApart → ∀ (α ω : Type) (s₀ t : Session α ω) (su : Surroundings α)
      (arts : List (ContainerId × Artifact)) events before e after d id extents x,
      s₀.Shipped su s arts e.place d → s₀.Run events t → events = before ++ e :: after →
      e.step = .getView x → s.extents id = .ok extents → x ∈ extents →
      d.route x = .ok (.pair id) →
      let ref := su.reference s₀.host.name e.place d
      ∃ adopted n, ref.lookup id = .ok adopted ∧ s.extentName x = .ok n ∧
        (∀ a, (id, a) ∈ arts → (∀ n ∈ a.views.keys, ∃ e ∈ extents, s.extentName e = .ok n) →
          adopted.size = a.views.size ∧ ∀ n e, s.Sole extents n e →
            adopted.get? e = (a.views.get? n).map fun t => .ofText (.extent e) t .preGenerated) ∧
        (e.reply = Reference.replyAmong adopted x n ∨
          e.reply = ref.generated id >>= fun views => Reference.replyAmong views x n) ∧
        ((∀ j ∈ id :: d.askedAt e.place before, ref.lookup j ≠ .ok .empty) →
          e.reply = Reference.replyAmong adopted x n)) := by
  refine ⟨fun id id' m m' owner other hne hm hm' howner hother => ?_,
    fun hapart α ω s₀ t su arts events before e after d id extents x h run hevents hstep hextents
      hx hroute => h.reply_eq hs hapart run hevents hextents hx hroute hstep⟩
  obtain ⟨store, hstore, hpair⟩ := hs.verified.pairName hm howner
  obtain ⟨otherStore, hotherStore, hpair'⟩ := hs.verified.pairName hm' hother
  refine ⟨store, otherStore, hstore, hotherStore, hpair, hpair', ?_⟩
  rw [hpair, hpair', Except.ok.injEq]
  exact joined_eq_iff (hs.verified.container_name_ne howner hother hne)

/-- The ports are told apart, and a dictionary that is shown the artifacts of both answers with the
text that was exported for the port that it is asked for. -/
theorem Schema.ports_apart :
    Ports.twoPorts.pairName ⟨0⟩ ≠ Ports.twoPorts.pairName ⟨1⟩ ∧
    ∃ answer t, Ports.session.Run [⟨0, .getView Ports.ships, .ok answer⟩] t ∧
      answer.reply = .view (.ofText (.extent Ports.ships) "North" .preGenerated) := by
  obtain ⟨hnames, hanswers⟩ := Ports.built.pairs_apart
  obtain ⟨store, store', hstore, hstore', hpair, hpair', hiff⟩ :=
    hnames ⟨0⟩ ⟨1⟩ _ _ _ _ (by decide) rfl rfl rfl rfl
  obtain ⟨answer, t, run⟩ := Ports.run
  obtain ⟨adopted, n, hlookup, hname, hown, -, hfound⟩ :=
    hanswers Ports.pairsApart _ _ _ t _ _ _ [] _ [] _ ⟨0⟩ _ _ Ports.shipped run rfl rfl
      Ports.extents_eq (List.mem_singleton_self _) rfl
  obtain ⟨-, hget⟩ := hown _ List.mem_cons_self Ports.known
  have hship : adopted.get? Ports.ships =
      some (.ofText (.extent Ports.ships) "North" .preGenerated) := hget _ _ Ports.sole_ships
  have hreply := hfound fun j hj hempty => by
    cases List.mem_singleton.1 hj
    cases hlookup.symm.trans hempty
    cases hship
  rw [Reference.replyAmong, hship] at hreply
  refine ⟨fun hsame => ?_, answer, t, run, Except.ok.inj hreply⟩
  obtain ⟨part, ⟨h, -⟩ | ⟨h, -⟩⟩ := hiff.1 hsame <;>
    exact absurd (congrArg List.head? (eq_joined_iff.1 h)) (by simp)

end QueryViews
