import QueryViews.Proofs.Artifact
import QueryViews.Proofs.Closure.Names
import QueryViews.Proofs.Dictionary.Adopted
import QueryViews.Proofs.Session.Answers
import QueryViews.Proofs.Text.Hexadecimal

/-!
# Exported views are adopted

The views of a pair of containers can be exported by one session and adopted by another one, over
another schema, as long as the mapping of the pair has the same bytes there. What carries over are
names: the artifact has texts under qualified names, and as the contents say the same, the same
names are there on both sides (`Schema.exists_counterpart`), in whatever order they were declared.

* **export** — an artifact has the texts that the dictionary holds (`Session.Run.exists_exported`);
* **adoption** — a new dictionary whose first pair is that of the artifact holds those texts from
  then on (`Session.Run.beganWith`).
-/

namespace QueryViews

variable {α ω : Type}

/-- The assemblies that are found have one artifact between them. Some may be impossible to load. -/
def Host.ShowsOnly (host : Host α ω) (a : Artifact) : Prop :=
  ∃ (assemblies : List α) (artifacts : α → Except Error (List Artifact)),
    (∀ w, (host.scan w).1 = .ok assemblies) ∧
    (∀ assembly w, (host.load assembly w).1 = reported (artifacts assembly)) ∧
    assemblies.flatMap (fun assembly => (artifacts assembly).toOption.getD []) = [a]

/-! ## The artifact of a pair with the same bytes -/

/-- An artifact with the hash and the names of a pair is adopted whole for any pair with the same
bytes, if no other is seen there. -/
theorem Reference.exists_lookup_of_same (ref : Reference α) {s : Schema} {id id' : ContainerId}
    {k k' : Content} {a : Artifact} {h : ClosureHash} {extents extents' : List Extent}
    (hs : s.Built) (hs' : ref.schema.Built) (hk : s.content id = .ok (some k))
    (hk' : ref.schema.content id' = .ok (some k')) (hsame : k.Same k')
    (hextents : s.extents id = .ok extents) (hextents' : ref.schema.extents id' = .ok extents')
    (hcompute : ClosureHash.compute s id = .ok (some h)) (hpair : s.pairName id = .ok a.pair)
    (hhash : a.hash = h.text)
    (hnamed : ∀ n t, a.views.get? n = some t → ∃ e ∈ extents, s.extentName e = .ok n)
    (honly : ref.assemblies.flatMap ref.readable = [a]) :
    ∃ adopted, ref.lookup id' = .ok adopted ∧ adopted.size = a.views.size ∧
      ∀ n e', ref.schema.Sole extents' n e' →
        adopted.get? e' = (a.views.get? n).map fun t => .ofText (.extent e') t .preGenerated := by
  obtain ⟨_, hlisted, hns⟩ := hs.extentNames_of_content hk
  obtain ⟨_, hlisted', hns'⟩ := hs'.extentNames_of_content hk'
  cases hlisted.symm.trans hextents
  cases hlisted'.symm.trans hextents'
  obtain ⟨names, hnames, hfinds⟩ := Schema.exists_extentsByName hextents' hns'
  -- the name of the pair, the hash and the names of extents are told by contents that say the same
  have hpair' : ref.schema.pairName id' = .ok a.pair := by
    rw [Schema.pairName_of_content hk', ← hsame.conceptual, ← hsame.store, ← hpair,
      Schema.pairName_of_content hk]
  have hlive : ClosureHash.compute ref.schema id' = .ok (some h) := by
    rw [ClosureHash.compute_of_content hk', ← hsame.hash_eq, ← ClosureHash.compute_of_content hk,
      hcompute]
  have hknown (n : String) (hn : n ∈ a.views.keys) : ∃ e, names.get? n = some e := by
    obtain ⟨t, ht⟩ := OrderedMap.exists_get?_iff.2 hn
    obtain ⟨e, he, hname⟩ := hnamed n t ht
    obtain ⟨n', hn', hname'⟩ := exists_mem_of_mapM hns he
    cases hname.symm.trans hname'
    exact hfinds n (hsame.extentNames.mem_iff.1 hn')
  have hmade : (ref.assemblies.flatMap ref.readable).filter (·.pair = a.pair) = [a] := by
    rw [honly]
    exact List.filter_cons_of_pos (decide_eq_true rfl)
  obtain ⟨adopted, hlookup, hwhole⟩ := ref.exists_lookup hmade hpair' (hhash ▸ h.parse_text) hlive
    hnames fun _ _ _ => Schema.name_eq_of_extentsByName hextents' hnames
  obtain ⟨hsize, hadopted⟩ := hwhole hknown
  exact ⟨adopted, hlookup, hsize, fun n e' hsole =>
    hadopted n e' (hsole.get?_eq_some hextents' hns' hnames)⟩

/-! ## Exporting and adopting -/

namespace Session

/-- The dictionary at a place is new. -/
def Starts (s : Session α ω) (place : Nat) (d : Dictionary ω) (schema : Schema) (config : Config)
    (shares : Bool) : Prop :=
  ∃ generator tables, s.dictionaries[place]? = some (d, tables) ∧
    Dictionary.start schema config (some generator) shares = .ok (d, tables)

/-- The dictionary at a place has resolved the pair of a container to these views. -/
def Holds (s : Session α ω) (place : Nat) (id : ContainerId) (views : PairViews) : Prop :=
  ∃ d tables, s.dictionaries[place]? = some (d, tables) ∧
    tables.pairs.get? id = some (.ok views)

variable {s₀ s s' : Session α ω} {events : List Event} {place : Nat} {d : Dictionary ω}
  {schema : Schema} {config : Config} {shares : Bool} {id : ContainerId} {a : Artifact}

/-- A new dictionary is over the schema that it was started with. -/
theorem Starts.schema_eq (h : s₀.Starts place d schema config shares) : d.schema = schema := by
  obtain ⟨_, _, -, hstart⟩ := h
  cases hstart
  rfl

/-- A pair is resolved to one thing. -/
theorem Holds.unique {views views' : PairViews} (h : s.Holds place id views)
    (h' : s.Holds place id views') : views = views' := by
  obtain ⟨d, tables, hd, hget⟩ := h
  obtain ⟨d', tables', hd', hget'⟩ := h'
  cases hd.symm.trans hd'
  cases hget.symm.trans hget'
  rfl

/-- A new dictionary sees what its host shows. -/
theorem Starts.sees (h : s₀.Starts place d schema config true) {assemblies : List α}
    {artifacts : α → Except Error (List Artifact)}
    (hscan : ∀ w, (s₀.host.scan w).1 = .ok assemblies)
    (hload : ∀ assembly w, (s₀.host.load assembly w).1 = reported (artifacts assembly))
    (generate : Request → Except Error Generated) :
    (⟨schema, config, generate, s₀.host.name, assemblies, artifacts⟩ : Reference α).Sees False d
      s₀.host := by
  obtain ⟨_, _, -, hstart⟩ := h
  cases hstart
  exact ⟨rfl, rfl, rfl, rfl, fun w => .inl (hscan w), fun assembly w => .inl (hload assembly w)⟩

/-- An artifact is made of the views that the dictionary holds after it exported it. -/
theorem Run.exists_exported (run : s₀.Run events s)
    (hstarts : s₀.Starts place d schema config shares)
    (hc : schema.canonicalContainer? (.conceptual id) = some id)
    (hexport : s.step place (.exportViews id) = some (.ok (.artifact a), s')) :
    ∃ views h, s'.Holds place id views ∧ schema.Listed id (PairViews.plain views) ∧
      ClosureHash.compute schema id = .ok (some h) ∧ schema.pairName id = .ok a.pair ∧
      a.hash = h.text ∧ d.textsByName views = .ok a.views := by
  have hschema := hstarts.schema_eq
  obtain ⟨generator, tables₀, hd₀, hstart⟩ := hstarts
  have horderly₀ : d.Orderly tables₀ := by
    cases hstart
    exact ⟨Memo.sound_empty, Memo.sound_empty⟩
  subst hschema
  -- the tables stay orderly up to the export
  obtain ⟨-, tables, htables, horderly⟩ := run.invariant (C := fun _ => True)
    (P := fun _ tables => d.Orderly tables) hd₀ trivial horderly₀ (fun _ _ _ _ _ => trivial)
    fun _ step sc _ _ h _ => (d.keeps_orderly _ step sc h).1
  obtain ⟨d', tables', hd', houtcome, rfl⟩ := step_cases hexport
  rw [htables] at hd'
  cases hd'
  rw [Dictionary.perform, Act.bind_apply] at houtcome ⊢
  rcases hrun : d.exportViews (s.host.seenBy d) id (s.sceneOf d tables) with ⟨e | a', sc'⟩ <;>
    rw [hrun] at houtcome <;> cases houtcome
  obtain ⟨horderly', views, h, hget, hparts⟩ := Dictionary.exists_exported horderly hc hrun
  refine ⟨views, h, ⟨d, sc'.tables, ?_, hget⟩, horderly'.pairs id _ hget views rfl, hparts⟩
  rw [getElem?_afterStep htables, if_pos rfl]
  rfl

/-- A new dictionary that searches, and that asks for the pair of a container first. -/
theorem Run.beganWith (run : s₀.Run events s) (hstarts : s₀.Starts place d schema config true)
    (hconfig : config.preGeneratedViews = true) {ref : Reference α}
    (hd : ref.Sees False d s₀.host) (hcache : s₀.cache.Fits ref.assemblies)
    {adopted : OrderedMap Extent View} (hlookup : ref.lookup id = .ok adopted)
    (hfound : adopted.isEmpty = false) (hfirst : ∀ j ∈ (d.askedAt place events).head?, j = id) :
    s.cache.Fits ref.assemblies ∧ ∃ tables, s.dictionaries[place]? = some (d, tables) ∧
      ref.BeganWith ω id adopted (d.askedAt place events) tables := by
  obtain ⟨generator, tables₀, hd₀, hstart⟩ := hstarts
  have hshares : d.sharesAssemblies = true := by
    cases hstart
    rfl
  have hseen : s₀.host.seenBy d = s₀.host := if_pos hshares
  have hbegan₀ : ref.BeganWith ω id adopted [] tables₀ := by
    cases hstart
    refine ⟨fun _ cache w hfits => ⟨hfits, Memo.sound_empty, ?_, Memo.sound_empty⟩,
      fun hne => absurd rfl hne⟩
    rw [hconfig]
    rfl
  have hscan (w : ω) (found : List α) (hfound : (s₀.host.scan w).1 = .ok found) :
      found = ref.assemblies := (hd.scan w).value_eq hfound
  -- the invariant speaks of runs whose first request for a pair is the one for this container
  obtain ⟨hcache', tables, htables, hbegan⟩ := run.invariant
    (C := fun cache => cache.Fits ref.assemblies)
    (P := fun asked tables => (∀ j ∈ asked.head?, j = id) → ref.BeganWith ω id adopted asked tables)
    hd₀ hcache (fun _ => hbegan₀) (fun d' _ step sc h => (d'.cache_fits hscan step sc h).1)
    fun asked step sc hfits _ h _ hfirst => by
      rw [hseen]
      have hfirst' : ∀ j ∈ asked.head?, j = id := fun j hj => hfirst j (by
        rw [List.head?_append, hj]
        rfl)
      exact hd.perform_beganWith hlookup hfound (hfits hshares) (h hfirst') hfirst
  exact ⟨hcache', tables, htables, hbegan hfirst⟩

/-- How a new dictionary finds the view of an extent of a mapped pair. -/
theorem Starts.route (hstarts : s₀.Starts place d schema config shares) (hbuilt : schema.Built)
    {extents : List Extent} (hextents : schema.extents id = .ok extents) {e : Extent}
    (he : e ∈ extents) (huser : (UserViews.ofMapping schema.mapping).get? (.extent e) = none)
    (hforeignKey : ∀ set, e = .associationSet set → schema.hasForeignKeyView set = .ok false) :
    d.route e = .ok (.pair id) := by
  have hschema := hstarts.schema_eq
  have huserViews : d.userViews.get? (.extent e) = none := by
    obtain ⟨_, _, -, hstart⟩ := hstarts
    cases hstart
    obtain ⟨n, hn⟩ := OrderedMap.get?_mapIdx (UserViews.ofMapping schema.mapping) Published.mk 0
      (.extent e)
    rw [hn, huser]
    rfl
  subst hschema
  obtain ⟨r, hr, hc⟩ := hbuilt.canonicalContainer?_of_mem_extents hextents he
  exact Dictionary.route_eq_ok_iff.2 (.pair huserViews hforeignKey hr hc)

end Session

/-! ## A shop that ships to another -/

namespace Shop

/-- The one view that the generator makes, as the first dictionary of the session holds it. -/
def itemViews : PairViews := .ofList [(items, ⟨0, .ofText (.extent items) "items" .runtime⟩)]

/-- What is exported: the one view under the name of its set. -/
def artifact : Artifact where
  pair := "Shop:Db"
  hash := (ClosureHash.ofContent (content "Item" "Tag")).text
  views := .ofList [("Shop.Item", "items")]

/-- The first dictionary of the session exports what its generator makes. -/
theorem exported : ∃ s, session.step 0 (.exportViews ⟨0⟩) = some (.ok (.artifact artifact), s) ∧
    s.Holds 0 ⟨0⟩ itemViews := by
  have hpair : ∃ sc, (dictionary true).pairViews host ⟨0⟩ ⟨tables, none, ()⟩ =
      (.ok (.ok itemViews), sc) := ⟨_, rfl⟩
  obtain ⟨sc, hpair⟩ := hpair
  have horderly : (dictionary true).Orderly tables := ⟨Memo.sound_empty, Memo.sound_empty⟩
  have hc : (dictionary true).schema.canonicalContainer? (.conceptual ⟨0⟩) = some ⟨0⟩ := rfl
  obtain ⟨sc', hexport, hget⟩ := Dictionary.exists_exportViews_eq horderly hc hpair
    (ClosureHash.compute_of_content content_eq) rfl rfl
  refine ⟨session.afterStep 0 (dictionary true) sc', Session.step_of_perform rfl ?_,
    dictionary true, sc'.tables, rfl, hget⟩
  exact Act.bind_apply_ok hexport

/-- A session over the shop declared in the other order. Its generator can only fail. -/
def receiver : Session Unit Unit where
  host := ⟨fun _ => "Shipped", pure [()], fun _ => pure [artifact]⟩
  dictionaries := [(⟨schema "Tag" "Item", ⟨true, true, true⟩,
    fun _ => Act.stop (.error (.plain "no views")), true, .empty⟩, tables)]
  cache := none
  world := ()

theorem starts : session.Starts 0 (dictionary true) (schema "Item" "Tag") ⟨true, true, true⟩ true :=
  ⟨_, _, rfl, rfl⟩

/-- The dictionary of the receiver can be started, and is new. -/
theorem receiver_starts : ∃ d, receiver.Starts 0 d (schema "Tag" "Item") ⟨true, true, true⟩ true :=
  ⟨_, _, _, rfl, rfl⟩

/-- The receiver finds the artifact and nothing else. -/
theorem receiver_showsOnly : receiver.host.ShowsOnly artifact :=
  ⟨[()], fun _ => .ok [artifact], fun _ => rfl, fun _ _ => rfl, rfl⟩

/-- The set that the artifact has a text for has another place in the receiving schema. -/
def receivedItems : Extent := .entitySet ⟨⟨0⟩, 1⟩

/-- The name of the items belongs to one set of the receiving schema. -/
theorem sole_receivedItems {extents : List Extent}
    (h : (schema "Tag" "Item").extents ⟨0⟩ = .ok extents) :
    (schema "Tag" "Item").Sole extents "Shop.Item" receivedItems := by
  cases h
  refine ⟨by decide, rfl, fun e he hname => ?_⟩
  have he : e ∈ [.entitySet ⟨⟨0⟩, 0⟩, receivedItems, .table ⟨0⟩, .table ⟨1⟩] := he
  simp only [List.mem_cons, List.not_mem_nil, or_false] at he
  rcases he with rfl | rfl | rfl | rfl
  · exact absurd (Except.ok.inj hname) (by decide)
  · rfl
  · exact absurd (Except.ok.inj hname) (by decide)
  · exact absurd (Except.ok.inj hname) (by decide)

end Shop

/-! ## Across schemas -/

namespace Session

variable {s₀ s s' : Session α ω} {events : List Event} {place : Nat} {d : Dictionary ω}
  {schema : Schema} {config : Config} {shares : Bool} {id : ContainerId} {a : Artifact}

/-- **Exported views are adopted whole.** Let two pairs of containers, of one built schema each,
have the same bytes, every length in which can be written. Let a dictionary over the first schema
export views for its pair, of which those that were generated are of extents of the pair. Let the
artifact, read back from its document, be all that is shown to a new dictionary over the second
schema, whose first question for a pair is for its own. Then, from then on,

* the view of an extent that has its name alone, and is neither the user's nor made from a foreign
  key, has the text that the exporting dictionary holds for the extent of that name, and there is
  none if that dictionary holds none;
* whatever the generator is, the answer is the same, so it is not asked;
* the dictionary holds one view for every text of the artifact;
* artifacts are searched on, as long as no other pair was asked for. -/
theorem Run.adopts_exported {β υ : Type} {schema' : Schema} {k k' : Content} {id' : ContainerId}
    {config' : Config} {place' : Nat} {d' : Dictionary υ} {t₀ t : Session β υ}
    {events' : List Event} {a' : Artifact}
    (hbuilt : schema.Built) (hbuilt' : schema'.Built)
    (hk : schema.content id = .ok (some k)) (hk' : schema'.content id' = .ok (some k'))
    (hfits : k.Fits) (hfits' : k'.Fits) (hbytes : k.encode = k'.encode)
    (run : s₀.Run events s) (hstarts : s₀.Starts place d schema config shares)
    (hexport : s.step place (.exportViews id) = some (.ok (.artifact a), s'))
    (hsome : a.views.isEmpty = false)
    (hgenerated : ∀ views extents, s'.Holds place id views → schema.extents id = .ok extents →
      ∀ e v, views.get? e = some v → v.value.origin = .runtime → e ∈ extents)
    (hread : Artifact.parse a.document = .ok a') (hshows : t₀.host.ShowsOnly a')
    (run' : t₀.Run events' t) (hstarts' : t₀.Starts place' d' schema' config' true)
    (hconfig : config'.preGeneratedViews = true) (hcache : t₀.cache = none)
    (hfirst : ∀ j ∈ (d'.askedAt place' events').head?, j = id') :
    ∃ views extents extents' tables', s'.Holds place id views ∧ schema.extents id = .ok extents ∧
      schema'.extents id' = .ok extents' ∧ t.dictionaries[place']? = some (d', tables') ∧
      ∀ n e', schema'.Sole extents' n e' →
        (UserViews.ofMapping schema'.mapping).get? (.extent e') = none →
        (∀ set, e' = .associationSet set → schema'.hasForeignKeyView set = .ok false) →
        let outcome := d'.getView t.host e' (t.sceneOf d' tables')
        (∃ e, schema.Sole extents n e ∧ told Published.value outcome.1 =
          match views.get? e with
          | some v => .ok (.ofText (.extent e') v.value.text .preGenerated)
          | none => refuse (.viewNotGenerated n)) ∧
        (∀ g, ({ d' with generator := g }).getView t.host e' (t.sceneOf d' tables') = outcome) ∧
        (∃ adopted, outcome.2.tables.pairs.get? id' = some (.ok adopted) ∧
          adopted.size = a.views.size) ∧
        ((∀ j ∈ d'.askedAt place' events', j = id') →
          outcome.2.tables.mode = .generatedViews) := by
  have hsame : k.Same k' := Content.same_of_encode_eq hfits hfits'
    (hbuilt.verified.indexed_content hk) (hbuilt'.verified.indexed_content hk') hbytes
  obtain ⟨extents, hextents, hns⟩ := hbuilt.extentNames_of_content hk
  obtain ⟨extents', hextents', hns'⟩ := hbuilt'.extentNames_of_content hk'
  obtain ⟨views, h, hholds, hlisted, hcompute, hpair, hhash, htexts⟩ :=
    run.exists_exported hstarts (Schema.canonicalContainer?_of_content hk) hexport
  -- adopted views are of extents of the pair by themselves, generated ones by assumption
  have hwithin (e : Extent) (v : Published View) (hv : views.get? e = some v) : e ∈ extents := by
    have hplain : (PairViews.plain views).get? e = some v.value := by
      rw [PairViews.get?_plain, hv]
      rfl
    exact (hlisted extents hextents e v.value hplain).elim
      (hgenerated views extents hholds hextents e v hv) fun he => he
  have hschema := hstarts.schema_eq
  subst hschema
  have hnamed (n t : String) (ht : a.views.get? n = some t) :
      ∃ e ∈ extents, d.schema.extentName e = .ok n := by
    obtain ⟨e, v, hv, hname, -⟩ := Dictionary.exists_of_get?_textsByName htexts ht
    exact ⟨e, hwithin e v hv, hname⟩
  obtain rfl : a' = a := Except.ok.inj (hread.symm.trans a.parse_document)
  obtain ⟨assemblies, artifacts, hscan, hload, honly⟩ := hshows
  -- the generator of the reference is never asked, so any will do
  let ref : Reference β :=
    ⟨schema', config', fun _ => .ok ⟨.empty, []⟩, t₀.host.name, assemblies, artifacts⟩
  have hsees : ref.Sees False d' t₀.host := hstarts'.sees hscan hload _
  obtain ⟨adopted, hlookup, hsize, hadopted⟩ := ref.exists_lookup_of_same hbuilt hbuilt' hk hk'
    hsame hextents hextents' hcompute hpair hhash hnamed honly
  have hfound : adopted.isEmpty = false := by
    rw [OrderedMap.isEmpty_eq, hsize, ← OrderedMap.isEmpty_eq, hsome]
  obtain ⟨hfits, tables', htables', hbegan⟩ :=
    run'.beganWith hstarts' hconfig hsees (hcache ▸ .none _) hlookup hfound hfirst
  refine ⟨views, extents, extents', tables', hholds, hextents, hextents', htables',
    fun n e' hsole huser hforeignKey => ?_⟩
  have hroute := hstarts'.route hbuilt' hextents' hsole.1 huser hforeignKey
  have hname : d'.schema.extentName e' = .ok n := hstarts'.schema_eq ▸ hsole.2.1
  have hseen : (t.sceneOf d' tables').cache.Fits assemblies := by
    rw [sceneOf]
    split
    · exact hfits
    · exact .none _
  obtain ⟨htold, hother, ⟨held, hget, rfl⟩, hmode⟩ :=
    hsees.getView_of_beganWith hlookup hfound hseen hbegan hroute hname
  obtain ⟨e, hsole₁⟩ :=
    Schema.exists_counterpart hbuilt hbuilt' hk hk' hsame hextents hextents' hsole
  rw [run'.unmoved.1]
  refine ⟨⟨e, hsole₁, ?_⟩, hother, ⟨held, hget, ?_⟩, hmode⟩
  · rw [htold, hadopted n e' hsole, Dictionary.get?_textsByName htexts hwithin hsole₁]
    cases views.get? e <;> rfl
  · rw [← hsize, OrderedMap.size, OrderedMap.size, PairViews.entries_plain, List.length_map]

/-- The artifact of the shop, adopted where its types were declared in the other order. -/
theorem shop_adopts_exported : ∃ s d tables,
    Shop.session.step 0 (.exportViews ⟨0⟩) = some (.ok (.artifact Shop.artifact), s) ∧
      Shop.receiver.dictionaries[0]? = some (d, tables) ∧
      told Published.value (d.getView Shop.receiver.host Shop.receivedItems
        (Shop.receiver.sceneOf d tables)).1 =
          .ok (.ofText (.extent Shop.receivedItems) "items" .preGenerated) := by
  obtain ⟨s, hexport, hholds⟩ := Shop.exported
  obtain ⟨d', hstarts'⟩ := Shop.receiver_starts
  have hgenerated : ∀ views extents, s.Holds 0 ⟨0⟩ views →
      (Shop.schema "Item" "Tag").extents ⟨0⟩ = .ok extents →
      ∀ e v, views.get? e = some v → v.value.origin = .runtime → e ∈ extents := by
    intro views extents hviews hextents e v hv _
    obtain rfl := hviews.unique hholds
    have hmem : (e, v) ∈ Shop.itemViews.entries := OrderedMap.get?_eq_some_iff.1 hv
    cases List.mem_singleton.1 hmem
    cases hextents
    decide
  obtain ⟨views, extents, extents', tables', hviews, hextents, hextents', htables', hall⟩ :=
    Run.adopts_exported Shop.built Shop.built_reordered Shop.content_eq Shop.content_eq_reordered
      Shop.fits Shop.fits_reordered Shop.encode_eq .start Shop.starts hexport rfl hgenerated
      Shop.artifact.parse_document Shop.receiver_showsOnly .start hstarts' rfl rfl nofun
  obtain ⟨⟨e, hsole, htold⟩, -⟩ :=
    hall "Shop.Item" Shop.receivedItems (Shop.sole_receivedItems hextents') rfl nofun
  obtain rfl := hviews.unique hholds
  have hitems : Shop.items = e := by
    cases hextents
    exact hsole.2.2 Shop.items (by decide) rfl
  subst hitems
  exact ⟨s, d', tables', hexport, htables', htold⟩

end Session

end QueryViews
