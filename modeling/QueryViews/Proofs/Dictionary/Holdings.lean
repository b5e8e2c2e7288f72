import QueryViews.Proofs.Closure.Names
import QueryViews.Proofs.Dictionary.Adoption
import QueryViews.Proofs.Dictionary.Sound

/-!
# What a dictionary holds

Whatever the collaborators of a dictionary do and whether or not they fault,

* **kept** — the views that were resolved for a pair stay as they are (`Dictionary.keeps_resolved`);
* **listed** — of them, those that were not generated now are of extents of the pair
  (`Dictionary.keeps_orderly`);
* **exported** — an artifact has their texts, and the hash of the mapping that they are for
  (`Dictionary.exists_exported`).
-/

namespace QueryViews

variable {α ω : Type}

/-- Of the views for a pair, those that were not generated are of extents of the pair. -/
def Schema.Listed (s : Schema) (id : ContainerId) (views : OrderedMap Extent View) : Prop :=
  ∀ extents, s.extents id = .ok extents →
    ∀ e v, views.get? e = some v → v.origin = .runtime ∨ e ∈ extents

theorem Schema.listed_empty (s : Schema) (id : ContainerId) : s.Listed id .empty := nofun

/-- A view has the origin that it was made with. -/
theorem View.origin_of_make {s : Schema} {key : ViewKey} {body : ViewBody} {origin : Origin}
    {v : View} (h : View.make s key body origin = .ok v) : v.origin = origin := by
  cases body with
  | text t =>
    cases h
    rfl
  | query q =>
    obtain ⟨text, -, hr⟩ := bind_eq_ok_iff.1 h
    cases hr
    rfl

/-- What a generator made is listed, whatever it is of. -/
theorem Generated.listed_toViews {made : Generated} {s : Schema} {views : OrderedMap Extent View}
    (h : made.toViews s = .ok views) (id : ContainerId) : s.Listed id views := by
  intro extents _ e v hv
  obtain ⟨named, hnamed, hr⟩ := bind_eq_ok_iff.1 h
  cases hr
  obtain ⟨⟨e', body⟩, -, hmade⟩ := exists_of_mem_mapM hnamed (OrderedMap.mem_of_get?_ofList hv)
  obtain ⟨v', hv', hr⟩ := bind_eq_ok_iff.1 hmade
  cases hr
  exact .inl (View.origin_of_make hv')

namespace Dictionary

variable {d : Dictionary ω} {host : Host α ω} {P : Scene α ω → Prop} {id : ContainerId}
  {a : Artifact}

/-- Two invariants that are hard to break are so together. -/
theorem Insensitive.and {P' : Scene α ω → Prop} (hp : d.Insensitive host P)
    (hp' : d.Insensitive host P') : d.Insensitive host fun sc => P sc ∧ P' sc where
  scanned h := ⟨hp.scanned h.1, hp'.scanned h.2⟩
  loaded assembly h := ⟨hp.loaded assembly h.1, hp'.loaded assembly h.2⟩
  generated q h := ⟨hp.generated q h.1, hp'.generated q h.2⟩
  cleared h := ⟨hp.cleared h.1, hp'.cleared h.2⟩
  serial hn h := ⟨hp.serial hn h.1, hp'.serial hn h.2⟩
  warnings ds h := ⟨hp.warnings ds h.1, hp'.warnings ds h.2⟩
  foreignKeys hm h := ⟨hp.foreignKeys hm h.1, hp'.foreignKeys hm h.2⟩
  members hm h := ⟨hp.members hm h.1, hp'.members hm h.2⟩
  typed hm h := ⟨hp.typed hm h.1, hp'.typed hm h.2⟩
  reserved id h := ⟨hp.reserved id h.1, hp'.reserved id h.2⟩
  hashed id k h hk := ⟨hp.hashed id k h.1 hk, hp'.hashed id k h.2 hk⟩

/-! ## Resolved views stay -/

/-- The resolved pairs are changed by nothing but resolving a pair. -/
theorem insensitive_pairs (Q : Memo ContainerId (Resolved PairViews) → Prop) :
    d.Insensitive host fun sc => Q sc.tables.pairs where
  scanned h := h
  loaded _ h := h
  generated _ h := h
  cleared h := h
  serial _ h := h
  warnings _ h := h
  foreignKeys _ h := h
  members _ h := h
  typed _ h := h
  reserved _ h := h
  hashed _ _ h _ := h

/-- What a pair is resolved to stays, whatever the step. -/
theorem keeps_resolved (d : Dictionary ω) (host : Host α ω) (id : ContainerId)
    (r : Resolved PairViews) (step : Step) :
    (d.perform host step).Keeps fun sc : Scene α ω => sc.tables.pairs.get? id = some r := by
  have hp : d.Insensitive host fun sc => sc.tables.pairs.get? id = some r :=
    insensitive_pairs fun pairs => pairs.get? id = some r
  refine hp.perform step fun j _ => ?_
  refine .getOrCompute (hp.computePair (fun _ h => h) j) (fun s hs => ?_) fun s _ hs _ => ?_
  · exact (Memo.get?_reserve _ _ _).trans hs
  · exact Memo.get?_publish_of_some hs

/-! ## Resolved views are listed -/

/-- Texts of extents of the pair are added to views of such extents. -/
theorem listed_addTexts {views added : OrderedMap Extent View} {s : Schema}
    {texts : List (Extent × String × String)} (hviews : s.Listed id views)
    (htexts : ∀ extents, s.extents id = .ok extents → ∀ q ∈ texts, q.1 ∈ extents)
    (h : addTexts views texts = .ok added) : s.Listed id added := by
  induction texts generalizing views with
  | nil =>
    cases h
    exact hviews
  | cons q texts ih =>
    obtain ⟨views', hinsert, h⟩ := bind_eq_ok_iff.1 h
    refine ih ?_ (fun extents he q hq => htexts extents he q (List.mem_cons_of_mem _ hq)) h
    simp only at hinsert
    split at hinsert
    · cases hinsert
    · cases hinsert
      intro extents he e v hv
      rw [OrderedMap.get?_insert] at hv
      split at hv
      · rename_i heq
        exact .inr (heq ▸ htexts extents he q List.mem_cons_self)
      · exact hviews extents he e v hv

/-- The names in an artifact are looked up among the extents of the pair. -/
theorem listed_namedTexts {names : OrderedMap String Extent} {s : Schema}
    (hnames : s.extentsByName id = .ok names) {texts : List (Extent × String × String)}
    (htexts : namedTexts names a = some texts) :
    ∀ extents, s.extents id = .ok extents → ∀ q ∈ texts, q.1 ∈ extents := by
  intro extents he q hq
  rw [namedTexts_eq_some_iff] at htexts
  obtain ⟨i, hi, rfl⟩ := List.getElem_of_mem hq
  obtain ⟨hget, -⟩ := List.forall₂_iff_get.1 htexts |>.2 i (htexts.length_eq ▸ hi) hi
  exact (Schema.mem_extents_of_extentsByName he hnames hget).1

/-- Adopting adds views of extents of the pair only. -/
theorem Insensitive.adopt_listed (hp : d.Insensitive host P) (assembly : String) (a : Artifact)
    {views : OrderedMap Extent View} (hviews : d.schema.Listed id views) :
    (d.adopt id assembly views a : Act (Scene α ω) _ _).Yields P (d.schema.Listed id) := by
  rw [Dictionary.adopt]
  cases ClosureHash.parse a.hash with
  | error e => exact .pure hviews
  | ok expected =>
    refine (hp.closureHash id).widen.yields_bind fun live => ?_
    cases live with
    | none => exact (Act.Keeps.ofExcept _).yields_bind fun e => .ofError _
    | some live =>
      simp only
      by_cases hne : expected ≠ live
      · rw [if_pos hne]
        exact .ofError _
      · rw [if_neg hne]
        refine (Act.Yields.lookup _).bind fun names hnames => ?_
        cases htexts : namedTexts names a with
        | none => exact .pure hviews
        | some texts =>
          simp only
          cases hadded : addTexts views texts with
          | ok added =>
            exact .pure (listed_addTexts hviews (listed_namedTexts hnames htexts) hadded)
          | error e => exact .ofError _

/-- What is adopted from an assembly is of extents of the pair. -/
theorem Insensitive.adoptAssembly_listed (hp : d.Insensitive host P) (pair : String)
    (assembly : α) {views : OrderedMap Extent View} (hviews : d.schema.Listed id views) :
    (d.adoptAssembly host id pair views assembly).Yields P (d.schema.Listed id) := by
  rw [Dictionary.adoptAssembly]
  refine (hp.load assembly).settled.widen.yields_bind fun loaded => ?_
  cases loaded with
  | error e => exact .pure hviews
  | ok artifacts => exact .foldlM (fun _ a h => hp.adopt_listed (host.name assembly) a h) _ hviews

/-- What a search adopts is of extents of the pair. -/
theorem Insensitive.preGenerated_listed (hp : d.Insensitive host P) (id : ContainerId) :
    (d.preGenerated host id).Yields P (d.schema.Listed id) := by
  rw [Dictionary.preGenerated]
  refine (Act.Keeps.ofExcept _).yields_bind fun pair => ?_
  refine hp.candidates.widen.yields_bind fun found => ?_
  exact .foldlM (fun _ assembly h => hp.adoptAssembly_listed pair assembly h) _
    (d.schema.listed_empty id)

/-- What is generated has an origin of its own, so nothing is asked of its extents. -/
theorem Insensitive.generatePair_listed (hp : d.Insensitive host P) (id : ContainerId) :
    (d.generatePair id : Act (Scene α ω) _ _).Yields P (d.schema.Listed id) := by
  rw [Dictionary.generatePair]
  refine (Act.Keeps.ofExcept _).yields_bind fun pair => ?_
  refine (Act.Keeps.ofExcept _).yields_bind fun mapping => ?_
  refine (hp.ask mapping (.pair id)).yields_bind fun made => ?_
  by_cases he : made.hasErrors
  · rw [if_pos he]
    exact .ofError _
  · rw [if_neg he]
    refine (hp.recordWarnings made).yields_bind fun _ => ?_
    exact (Act.Yields.lookup _).mono fun r hr views hviews =>
      Generated.listed_toViews (hr views hviews) id

/-- Whether they are adopted or generated, the views of a pair are listed. -/
theorem Insensitive.computePair_listed (hp : d.Insensitive host P)
    (hmode : ∀ s, P s → P { s with tables.mode := .runtimeGeneration }) (id : ContainerId) :
    (d.computePair host id).Yields P fun r =>
      ∀ views, r = .ok views → d.schema.Listed id (PairViews.plain views) := by
  -- in either mode, and also where the mode changes on the way
  have hresolve : (d.resolvePair host id).Yields P (d.schema.Listed id) := by
    intro s hs
    rw [Dictionary.resolvePair, Act.bind_apply_ok (Act.state_apply s)]
    cases s.tables.mode with
    | runtimeGeneration => exact hp.generatePair_listed id s hs
    | generatedViews =>
      refine ((hp.preGenerated_listed id).bind fun adopted hadopted => ?_) s hs
      by_cases he : adopted.isEmpty
      · rw [if_pos he]
        exact (Act.Keeps.modify hmode).yields_bind fun _ => hp.generatePair_listed id
      · rw [if_neg he]
        exact .pure hadopted
  rw [Dictionary.computePair]
  refine hresolve.settled.bind fun r hr => ?_
  cases r with
  | ok views =>
    intro s hs
    refine ⟨hp.serial (Nat.le_add_right _ _) hs, fun r hr' views' hviews' => ?_⟩
    cases hr'
    cases hviews'
    rw [PairViews.plain_mapIdx]
    exact hr views rfl
  | error e => exact (hp.issue e).yields_bind fun _ => .pure fun _ h => by cases h

/-- What a dictionary remembers of hashes is right, and what it resolved is listed. -/
structure Orderly (d : Dictionary ω) (tables : Tables) : Prop where
  hashes : tables.hashes.Sound fun id h => ClosureHash.compute d.schema id = .ok h
  pairs : tables.pairs.Sound fun id r =>
    ∀ views, r = .ok views → d.schema.Listed id (PairViews.plain views)

/-- Neither scans nor generator calls bring disorder into the tables. -/
theorem insensitive_orderly : d.Insensitive host fun sc => d.Orderly sc.tables where
  scanned h := h
  loaded _ h := h
  generated _ h := h
  cleared h := h
  serial _ h := ⟨h.hashes, h.pairs⟩
  warnings _ h := ⟨h.hashes, h.pairs⟩
  foreignKeys _ h := ⟨h.hashes, h.pairs⟩
  members _ h := ⟨h.hashes, h.pairs⟩
  typed _ h := ⟨h.hashes, h.pairs⟩
  reserved _ h := ⟨h.hashes.reserve, h.pairs⟩
  hashed _ _ h hh := ⟨h.hashes.publish hh, h.pairs⟩

/-- Resolving a pair keeps the tables in order. -/
theorem pairViews_orderly (d : Dictionary ω) (host : Host α ω) (id : ContainerId) :
    (d.pairViews host id).Keeps fun sc : Scene α ω => d.Orderly sc.tables := by
  refine .getOrCompute (insensitive_orderly.computePair_listed ?_ id) ?_ ?_
  · exact fun s hs => ⟨hs.hashes, hs.pairs⟩
  · exact fun s hs => ⟨hs.hashes, hs.pairs.reserve⟩
  · exact fun s r hs hr => ⟨hs.hashes, hs.pairs.publish (hr r rfl)⟩

/-- Every step keeps the tables in order. -/
theorem keeps_orderly (d : Dictionary ω) (host : Host α ω) (step : Step) :
    (d.perform host step).Keeps fun sc : Scene α ω => d.Orderly sc.tables :=
  insensitive_orderly.perform step fun id _ => d.pairViews_orderly host id

/-! ## Exporting -/

/-- Where the tables are in order, the hash of a pair is that of its content. -/
theorem Insensitive.closureHash_ensures (hp : d.Insensitive host P)
    (hsound : ∀ sc, P sc → d.Orderly sc.tables) (id : ContainerId) :
    (d.closureHash id : Act (Scene α ω) Fault _).Ensures P
      (· = ClosureHash.compute d.schema id) := by
  refine .getOrCompute (.ofExcept rfl) (fun sc hsc h hh => ?_) ?_ ?_
  · exact ((hsound sc hsc).hashes id h hh).symm
  · exact fun sc hsc => hp.reserved id hsc
  · exact fun sc h hsc hh => hp.hashed id h hsc hh.symm

/-- The parts of an artifact made of views that were resolved. -/
theorem Insensitive.artifactFrom_yields (hp : d.Insensitive host P)
    (hsound : ∀ sc, P sc → d.Orderly sc.tables) (id : ContainerId) (r : Resolved PairViews) :
    (d.artifactFrom id r).Yields P fun a => ∃ views h, r = .ok views ∧
      ClosureHash.compute d.schema id = .ok (some h) ∧ d.schema.pairName id = .ok a.pair ∧
      a.hash = h.text ∧ d.textsByName views = .ok a.views := by
  have hunwrap : (Scene.unwrap r : Act (Scene α ω) _ _).Yields P fun views => r = .ok views := by
    cases r with
    | ok views => exact .pure rfl
    | error e => exact .stop _
  have hhash : (d.closureHash id : Act (Scene α ω) Fault _).Yields P
      fun h => ClosureHash.compute d.schema id = .ok h :=
    (hp.closureHash_ensures hsound id).mono fun r hr h hh => hr.symm.trans hh
  refine hunwrap.bind fun views hviews => hhash.widen.bind fun h hh => ?_
  cases h with
  | none =>
    refine (Act.Keeps.ofExcept _).yields_bind fun e => ?_
    exact (hp.issue e).yields_bind fun _ => .stop _
  | some h =>
    refine (Act.Yields.lookup _).bind fun pair hpair => ?_
    refine (Act.Yields.lookup _).bind fun texts htexts => .pure ?_
    exact ⟨views, h, hviews, hh, hpair, rfl, htexts⟩

/-- What was resolved, and what is remembered of hashes, while an artifact is made of it. -/
theorem insensitive_exporting (host : Host α ω) (id : ContainerId) (r : Resolved PairViews) :
    d.Insensitive host fun sc => d.Orderly sc.tables ∧ sc.tables.pairs.get? id = some r :=
  insensitive_orderly.and (insensitive_pairs fun pairs => pairs.get? id = some r)

/-- Once a pair was exported, its views are resolved, and the artifact has their texts. -/
theorem exists_exported {c : ContainerId} {sc sc' : Scene α ω} (hsc : d.Orderly sc.tables)
    (hc : d.schema.canonicalContainer? (.conceptual id) = some c)
    (h : d.exportViews host id sc = (.ok a, sc')) :
    d.Orderly sc'.tables ∧ ∃ views h, sc'.tables.pairs.get? c = some (.ok views) ∧
      ClosureHash.compute d.schema c = .ok (some h) ∧ d.schema.pairName c = .ok a.pair ∧
      a.hash = h.text ∧ d.textsByName views = .ok a.views := by
  rw [exportViews_of_canonical hc, Act.bind_apply, Act.widen, Act.mapFailure] at h
  rcases hpair : d.pairViews host c sc with ⟨f | r, sc₁⟩ <;> rw [hpair] at h
  · cases h
  · have h : d.artifactFrom c r sc₁ = (.ok a, sc') := h
    have horderly := (d.pairViews_orderly host c sc hsc).1
    rw [hpair] at horderly
    obtain ⟨⟨horderly', hget⟩, hyields⟩ := (insensitive_exporting host c r).artifactFrom_yields
      (fun _ h => h.1) c r sc₁ ⟨horderly, Act.get?_of_getOrCompute hpair⟩
    rw [h] at horderly' hget hyields
    obtain ⟨views, hash, rfl, hparts⟩ := hyields a rfl
    exact ⟨horderly', views, hash, hget, hparts⟩

/-- A pair that can be resolved, of a mapping that has a hash, can be exported. -/
theorem exists_exportViews_eq {c : ContainerId} {sc sc₁ : Scene α ω} {views : PairViews}
    {h : ClosureHash} {pair : String} {texts : OrderedMap String String}
    (hsc : d.Orderly sc.tables) (hc : d.schema.canonicalContainer? (.conceptual id) = some c)
    (hpair : d.pairViews host c sc = (.ok (.ok views), sc₁))
    (hcompute : ClosureHash.compute d.schema c = .ok (some h))
    (hname : d.schema.pairName c = .ok pair) (htexts : d.textsByName views = .ok texts) :
    ∃ sc', d.exportViews host id sc = (.ok ⟨pair, h.text, texts⟩, sc') ∧
      sc'.tables.pairs.get? c = some (.ok views) := by
  have horderly := (d.pairViews_orderly host c sc hsc).1
  rw [hpair] at horderly
  obtain ⟨⟨-, hget⟩, houtcome⟩ := (insensitive_exporting host c (.ok views)).closureHash_ensures
    (fun _ h => h.1) c sc₁ ⟨horderly, Act.get?_of_getOrCompute hpair⟩
  rcases hhash : d.closureHash c sc₁ with ⟨r, sc'⟩
  rw [hhash] at hget houtcome
  obtain rfl : r = .ok (some h) := houtcome.trans hcompute
  refine ⟨sc', ?_, hget⟩
  rw [exportViews_of_canonical hc, Act.widen_bind_of_ok hpair]
  change ((d.closureHash c).widen >>= fun h => _) sc₁ = _
  rw [Act.bind_apply, Act.widen, Act.mapFailure, hhash]
  change (Act.ofExcept (monadLift (d.schema.pairName c)) >>= fun pair => _) sc' = _
  rw [hname]
  change (Act.ofExcept (monadLift (d.textsByName views)) >>= fun texts => _) sc' = _
  rw [htexts]
  rfl

/-- Every text of an artifact is that of a view, under the name of its extent. -/
theorem exists_of_get?_textsByName {views : PairViews} {texts : OrderedMap String String}
    (h : d.textsByName views = .ok texts) {n t : String} (ht : texts.get? n = some t) :
    ∃ e v, views.get? e = some v ∧ d.schema.extentName e = .ok n ∧ v.value.text = t := by
  obtain ⟨named, hnamed, hr⟩ := bind_eq_ok_iff.1 h
  cases hr
  obtain ⟨⟨e, v⟩, hmem, hname⟩ := exists_of_mem_mapM hnamed (OrderedMap.mem_of_get?_ofList ht)
  obtain ⟨n', hn', hr⟩ := bind_eq_ok_iff.1 hname
  cases hr
  exact ⟨e, v, OrderedMap.get?_eq_some_iff.2 hmem, hn', rfl⟩

/-- Under the name of every extent with a view there is a text. -/
theorem exists_get?_textsByName {views : PairViews} {texts : OrderedMap String String}
    (h : d.textsByName views = .ok texts) {e : Extent} {v : Published View}
    (hv : views.get? e = some v) {n : String} (hn : d.schema.extentName e = .ok n) :
    ∃ t, texts.get? n = some t := by
  obtain ⟨named, hnamed, hr⟩ := bind_eq_ok_iff.1 h
  cases hr
  obtain ⟨p, hp, hname⟩ := exists_mem_of_mapM hnamed (OrderedMap.get?_eq_some_iff.1 hv)
  obtain ⟨n', hn', hr⟩ := bind_eq_ok_iff.1 hname
  cases hr
  rw [hn] at hn'
  cases hn'
  exact OrderedMap.exists_get?_ofList (List.mem_map_of_mem (f := Prod.fst) hp)

/-- Under a name that one extent alone has, there is the text of its view, if it has one. -/
theorem get?_textsByName {views : PairViews} {texts : OrderedMap String String}
    (h : d.textsByName views = .ok texts) {extents : List Extent}
    (hwithin : ∀ e v, views.get? e = some v → e ∈ extents) {n : String} {e : Extent}
    (hsole : d.schema.Sole extents n e) :
    texts.get? n = (views.get? e).map fun v => v.value.text := by
  obtain ⟨-, hname, hall⟩ := hsole
  -- a text under the name is of some extent of that name, and there is only one
  cases ht : texts.get? n with
  | some t =>
    obtain ⟨e₁, v, hv, hn, rfl⟩ := exists_of_get?_textsByName h ht
    obtain rfl := hall e₁ (hwithin e₁ v hv) hn
    rw [hv]
    rfl
  | none =>
    cases hv : views.get? e with
    | none => rfl
    | some v =>
      obtain ⟨t, hsome⟩ := exists_get?_textsByName h hv hname
      rw [hsome] at ht
      cases ht

end Dictionary

end QueryViews
