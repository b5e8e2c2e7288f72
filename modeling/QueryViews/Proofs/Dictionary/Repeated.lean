import QueryViews.Proofs.Assembly.Source
import QueryViews.Proofs.Dictionary.Search

/-!
# Assemblies that are registered again

A search refuses views for an extent that has some already. It does so only if two artifacts that it
can adopt have a text under one name (`namedTwice_of_merge`), and among the candidates of a source
these are of one assembly, or of assemblies with different names. So an assembly that is registered
again under its name is no reason: the search ends as it does without that
(`DefaultSource.counts_once`).
-/

namespace QueryViews

variable {α ω : Type} {names : OrderedMap String Extent} {live : ClosureHash} {pair n : String}

/-! ## A text too many -/

/-- The error for a second text of the extent with a name. -/
def Dictionary.ambiguousExtent (name : String) : Error :=
  .mapping s!"extent `{name}` has views in more than one pre-generated artifact"

/-- One of the artifacts has a text under a name. -/
def Named (n : String) (artifacts : List Artifact) : Prop := ∃ a ∈ artifacts, n ∈ a.views.keys

/-- Two of the artifacts have a text under a name. -/
def NamedTwice (n : String) (artifacts : List Artifact) : Prop :=
  ¬ artifacts.Pairwise fun a b => ¬ (n ∈ a.views.keys ∧ n ∈ b.views.keys)

section Merge

variable {a : Artifact} {views : OrderedMap Extent View} {assembly : String}

/-- The error tells the name of the extent. -/
theorem Dictionary.ambiguousExtent_injective : Function.Injective ambiguousExtent := by
  intro n n' h
  simp only [ambiguousExtent, Error.mapping, Error.ofKind, Error.mk.injEq, ErrorKind.mapping.injEq,
    and_true, String.append_left_inj, String.append_right_inj] at h
  exact h

/-- An artifact of another mapping is refused with an error of its own. -/
theorem Dictionary.staleArtifact_ne_ambiguousExtent (a : Artifact) (assembly : String)
    (expected live : ClosureHash) (n : String) :
    staleArtifact a assembly expected live ≠ ambiguousExtent n := by
  intro h
  simp only [staleArtifact, ambiguousExtent, Error.mapping, Error.ofKind, Error.mk.injEq,
    ErrorKind.mapping.injEq, and_true] at h
  have hfirst := congrArg (fun message => message.toList.head?) h
  simp [String.toList_append, toString] at hfirst

/-- A text is refused only if its extent has one already. -/
theorem exists_of_addTexts_eq_error {texts : List (Extent × String × String)}
    (hnodup : (texts.map Prod.fst).Nodup) {e : Error}
    (h : Dictionary.addTexts views texts = .error e) :
    ∃ q ∈ texts, q.1 ∈ views.keys ∧ e = Dictionary.ambiguousExtent q.2.1 := by
  induction texts generalizing views with
  | nil => cases h
  | cons q texts ih =>
    obtain ⟨extent, name, text⟩ := q
    rw [List.map_cons, List.nodup_cons] at hnodup
    rw [Dictionary.addTexts, List.foldlM_cons] at h
    simp only at h
    by_cases hextent : views.contains extent = true
    · rw [if_pos hextent] at h
      cases h
      exact ⟨_, List.mem_cons_self, OrderedMap.contains_iff.1 hextent, rfl⟩
    · rw [if_neg hextent] at h
      obtain ⟨q, hq, hmem, he⟩ := ih hnodup.2 h
      refine ⟨q, List.mem_cons_of_mem _ hq, ?_, he⟩
      rw [OrderedMap.keys, OrderedMap.entries_insert fun h => hextent (OrderedMap.contains_iff.2 h),
        List.map_append, List.mem_append] at hmem
      -- it is not the extent that was just added, since none is there twice
      refine hmem.resolve_right fun h => hnodup.1 ?_
      rw [← List.mem_singleton.1 h]
      exact List.mem_map_of_mem hq

/-- An artifact with a text too many can be adopted otherwise, and there is a text for the extent of
that name. -/
theorem exists_of_mergeOne_eq_error
    (hinjective : ∀ n n' e, names.get? n = some e → names.get? n' = some e → n = n')
    (h : mergeOne names live views (assembly, a) = .error (Dictionary.ambiguousExtent n)) :
    a.isReadable = true ∧ a.Familiar names ∧ n ∈ a.views.keys ∧
      ∃ e, names.get? n = some e ∧ e ∈ views.keys := by
  -- an artifact that cannot be read, is stale or names a stranger ends in another way
  cases hparse : ClosureHash.parse a.hash with
  | error e =>
    rw [mergeOne_of_unreadable hparse] at h
    cases h
  | ok expected =>
    by_cases hlive : expected = live
    · subst hlive
      rw [mergeOne_of_live hparse] at h
      by_cases ha : a.Familiar names
      · obtain ⟨texts, htexts, hentries, hnames⟩ :=
          Dictionary.exists_namedTexts fun n hn => OrderedMap.exists_get?_iff.2 (ha n hn)
        obtain ⟨texts', htexts', hnodup, -⟩ := exists_texts hinjective ha
        cases htexts.symm.trans htexts'
        rw [htexts] at h
        obtain ⟨q, hq, hmem, he⟩ := exists_of_addTexts_eq_error hnodup h
        obtain rfl := Dictionary.ambiguousExtent_injective he
        refine ⟨Artifact.isReadable_iff.2 ⟨_, hparse⟩, ha, ?_, q.1, hnames q hq, hmem⟩
        rw [OrderedMap.keys, ← hentries]
        exact List.mem_map_of_mem (List.mem_map_of_mem hq)
      · rw [namedTexts_of_not_familiar ha] at h
        cases h
    · simp only [mergeOne, hparse] at h
      rw [if_pos hlive] at h
      exact absurd (Except.error.inj h) (Dictionary.staleArtifact_ne_ambiguousExtent _ _ _ _ _)

/-- A merge that ends with a text too many has met two artifacts with a text under its name. -/
theorem namedTwice_of_merge
    (hinjective : ∀ n n' e, names.get? n = some e → names.get? n' = some e → n = n')
    {found : List (String × Artifact)}
    (h : merge names live found = .error (Dictionary.ambiguousExtent n)) :
    NamedTwice n
      (((found.map Prod.snd).filter Artifact.isReadable).filter (Artifact.Familiar names)) := by
  obtain ⟨before, ⟨assembly, a⟩, after, views, rfl, hviews, hone⟩ :=
    exists_append_of_foldlM_eq_error h
  -- what is there already came from the artifacts before
  rcases @merge_cases names live hinjective before with ⟨views', hviews', -, hm⟩ | ⟨e, he, -⟩
  · cases hviews.symm.trans hviews'
    obtain ⟨hreadable, ha, hn, e, hname, he⟩ := exists_of_mergeOne_eq_error hinjective hone
    obtain ⟨v, hv⟩ := OrderedMap.exists_get?_iff.2 he
    obtain ⟨b, hb, hfamiliar, t, ⟨n', hname', ht⟩, -⟩ := (hm e v).1 hv
    obtain rfl := hinjective n' n e hname' hname
    intro hp
    rw [List.map_append, List.filter_append, List.filter_append, List.pairwise_append] at hp
    refine hp.2.2 b (List.mem_filter.2 ⟨hb, decide_eq_true hfamiliar⟩) a ?_
      ⟨OrderedMap.exists_get?_iff.1 ⟨t, ht⟩, hn⟩
    refine List.mem_filter.2 ⟨List.mem_filter.2 ⟨?_, hreadable⟩, decide_eq_true ha⟩
    exact List.mem_map_of_mem List.mem_cons_self
  · cases hviews.symm.trans he

/-- Merges of the same artifacts, met in any order, agree. -/
theorem merge_agree (live : ClosureHash)
    (hinjective : ∀ n n' e, names.get? n = some e → names.get? n' = some e → n = n')
    {found found' : List (String × Artifact)}
    (hp : ((found.map Prod.snd).filter Artifact.isReadable).Perm
      ((found'.map Prod.snd).filter Artifact.isReadable)) :
    Agree (fun views views' => ∀ e, views.get? e = views'.get? e) (merge names live found)
      (merge names live found') := by
  rcases @merge_cases names live hinjective found with ⟨views, hviews, hr, hm⟩ | ⟨e, he, -, hr⟩ <;>
    rcases @merge_cases names live hinjective found' with
      ⟨views', hviews', hr', hm'⟩ | ⟨e', he', -, hr'⟩
  · rw [hviews, hviews']
    refine .ok fun e => Option.ext fun v => (hm e v).trans ?_
    exact ((merged_iff_of_perm hp).2 hm' e v).symm
  · exact absurd ((refused_iff_of_perm hp).2 hr') hr
  · exact absurd ((refused_iff_of_perm hp).1 hr) hr'
  · rw [he, he']
    exact .error _ _

theorem Agree.reported {β γ : Type} {R : β → γ → Prop} {x : Except Error β} {y : Except Error γ}
    (h : Agree R x y) : Agree R (reported x) (QueryViews.reported y) := by
  cases h with
  | ok h => exact .ok h
  | error e e' => exact .error _ _

end Merge

/-! ## Searches among candidates -/

/-- The artifacts of an assembly that a search for a pair can adopt: those for the pair that have a
readable hash and known names only. -/
def Loaded.usable (names : OrderedMap String Extent) (pair : String) (answer : Loaded) :
    List Artifact :=
  (answer.artifacts.filter (Artifact.counts pair)).filter (Artifact.Familiar names)

/-- Of assemblies with what they answered, one alone has two artifacts for a pair with a text under
a name, or two with different names have such artifacts. -/
def Clash (name : α → String) (names : OrderedMap String Extent) (pair n : String)
    (loaded : List (α × Loaded)) : Prop :=
  (∃ p ∈ loaded, NamedTwice n (p.2.usable names pair)) ∨
    ∃ p ∈ loaded, ∃ q ∈ loaded, name p.1 ≠ name q.1 ∧
      Named n (p.2.usable names pair) ∧ Named n (q.2.usable names pair)

/-- A dictionary over a schema would search these assemblies in a scene, and they would answer so.
What the scene remembers of hashes is right. -/
structure Dictionary.SearchesAmong (s : Schema) (d : Dictionary ω) (host : Host α ω)
    (sc : Scene α ω) (assemblies : List α) (answers : List Loaded) : Prop where
  schema : d.schema = s
  hashes : sc.tables.hashes.Sound fun id h => ClosureHash.compute s id = .ok h
  answered : ∃ cache w w', host.candidates (sc.cache, sc.world) = (.ok assemblies, cache, w) ∧
    host.loadAll assemblies w = (.ok answers, w')

section Search

variable {s : Schema} {d : Dictionary ω} {host : Host α ω} {sc : Scene α ω}
  {assemblies : List α} {answers : List Loaded}

theorem Dictionary.SearchesAmong.searches (h : d.SearchesAmong s host sc assemblies answers) :
    d.Searches s host sc answers :=
  ⟨h.schema, h.hashes, assemblies, h.answered⟩

/-- Each assembly has one answer. -/
theorem Host.length_loadAll {w w' : ω} (h : host.loadAll assemblies w = (.ok answers, w')) :
    answers.length = assemblies.length := by
  induction assemblies generalizing answers w with
  | nil =>
    cases h
    rfl
  | cons assembly assemblies ih =>
    rw [Host.loadAll, List.mapM_cons] at h
    obtain ⟨answer, w₁, -, h⟩ := Act.bind_apply_eq_ok h
    obtain ⟨rest, w₂, hrest, hr⟩ := Act.bind_apply_eq_ok h
    cases hr
    rw [List.length_cons, List.length_cons, ih hrest]

/-- Of what was loaded, the artifacts that can be adopted come from the assemblies one by one. -/
theorem filter_familiar_readable (names : OrderedMap String Extent) (pair : String)
    (answers : List Loaded) :
    (readable pair answers).filter (Artifact.Familiar names) =
      answers.flatMap (Loaded.usable names pair) := by
  rw [readable, List.filter_flatMap, List.filter_flatMap]
  rfl

/-- If no two assemblies have one name, two artifacts with a text under a name are a clash. -/
theorem NamedTwice.clash {name : α → String} {loaded : List (α × Loaded)}
    (hnodup : (loaded.map fun p => name p.1).Nodup)
    (h : NamedTwice n (loaded.flatMap fun p => p.2.usable names pair)) :
    Clash name names pair n loaded := by
  refine Classical.by_contradiction fun hnone => h (List.pairwise_flatMap.2 ⟨fun p hp => ?_, ?_⟩)
  · exact not_not.1 fun htwice => hnone (.inl ⟨p, hp, htwice⟩)
  · refine (List.pairwise_map.1 hnodup).imp_of_mem fun {p q} hp hq hne a ha b hb hn => ?_
    exact hnone (.inr ⟨p, hp, q, hq, hne, ⟨a, ha, hn.1⟩, b, hb, hn.2⟩)

/-- If a search ends with a text too many, that is of one assembly, or of two with different
names. -/
theorem Dictionary.SearchesAmong.clash {id : ContainerId} {name : α → String}
    (h : d.SearchesAmong s host sc assemblies answers) (hnodup : (assemblies.map name).Nodup)
    (hlive : ClosureHash.compute s id = .ok (some live)) (hpair : s.pairName id = .ok pair)
    (hnames : s.extentsByName id = .ok names)
    (hinjective : ∀ n n' e, names.get? n = some e → names.get? n' = some e → n = n')
    (herror : (d.preGenerated host id sc).1 = .error (.error (ambiguousExtent n))) :
    Clash name names pair n (assemblies.zip answers) := by
  obtain ⟨found, hfound, houtcome⟩ := h.searches.exists_merge hlive hpair hnames
  have hmerge : merge names live found = .error (ambiguousExtent n) := by
    rw [houtcome] at herror
    cases hmerge : merge names live found with
    | ok views =>
      rw [hmerge] at herror
      cases herror
    | error e =>
      rw [hmerge] at herror
      cases herror
      rfl
  obtain ⟨-, w, w', -, hload⟩ := h.answered
  have hlength := Host.length_loadAll hload
  have htwice := namedTwice_of_merge hinjective hmerge
  rw [hfound, filter_familiar_readable, ← List.map_snd_zip hlength.le, List.flatMap_map] at htwice
  rw [← List.map_fst_zip hlength.ge, List.map_map] at hnodup
  exact htwice.clash hnodup

/-- Searches among assemblies that answer the same, in any order, agree. -/
theorem Dictionary.SearchesAmong.agree {α' ω' : Type} {d' : Dictionary ω'} {host' : Host α' ω'}
    {sc' : Scene α' ω'} {assemblies' : List α'} {answers' : List Loaded} {id : ContainerId}
    (h : d.SearchesAmong s host sc assemblies answers)
    (h' : d'.SearchesAmong s host' sc' assemblies' answers') (hp : answers.Perm answers')
    (hlive : ClosureHash.compute s id = .ok (some live)) (hpair : s.pairName id = .ok pair)
    (hnames : s.extentsByName id = .ok names)
    (hinjective : ∀ n n' e, names.get? n = some e → names.get? n' = some e → n = n') :
    Agree (fun views views' => ∀ e, views.get? e = views'.get? e) (d.preGenerated host id sc).1
      (d'.preGenerated host' id sc').1 := by
  obtain ⟨found, hfound, houtcome⟩ := h.searches.exists_merge hlive hpair hnames
  obtain ⟨found', hfound', houtcome'⟩ := h'.searches.exists_merge hlive hpair hnames
  rw [houtcome, houtcome']
  refine (merge_agree live hinjective ?_).reported
  rw [hfound, hfound']
  exact (hp.flatMap fun _ _ => .refl _).filter _

end Search

/-- **An assembly counts once, however often it is registered.** Let a source be given, and say that
its entry refers to some assemblies.

* Its candidates are the first assembly of each name among what is known, the entry and what that
  refers to, in this order. No two have one name, and every name is there.
* Scans fault as long as the entry does when it is asked what it refers to. From the first time that
  it answers, all of them find the candidates by that answer, whatever it would answer later.
* Let a container of a built schema be mapped, and have a hash. If a search among the candidates
  ends with the error that an extent has views in more than one artifact, two artifacts that it can
  adopt have a text under the name of the extent, and these are of one assembly as it was loaded
  once, or of assemblies with different names.
* If assemblies are registered again under their names, as known or as what the entry refers to, and
  each answers the same whenever it is loaded, such a search ends with an error as before, or with
  the same view for each extent. -/
theorem DefaultSource.counts_once (source : DefaultSource α) (name : α → String) :
    (∀ others, FirstOfNames name (source.listed others) (source.candidates name others)) ∧
      (∀ {ω : Type} (asked : List ((α → Act ω Fault (List α)) × ω)) (faults : List Fault) others
        later,
        asked.map (fun ask => source.answer ask.1 ask.2) =
            faults.map .error ++ .ok others :: later →
          source.scans name none asked = faults.map .error ++
            List.replicate (later.length + 1) (.ok (source.candidates name others))) ∧
      ∀ {s : Schema}, s.Built → ∀ {id live}, ClosureHash.compute s id = .ok (some live) →
        ∃ pair names, s.pairName id = .ok pair ∧ s.extentsByName id = .ok names ∧
          (∀ {ω : Type} (d : Dictionary ω) (host : Host α ω) sc others answers,
            d.SearchesAmong s host sc (source.candidates name others) answers →
            ∀ n, (d.preGenerated host id sc).1 = .error (.error (Dictionary.ambiguousExtent n)) →
              Clash name names pair n ((source.candidates name others).zip answers)) ∧
          ∀ (answer : α → Loaded) (source' : DefaultSource α) (others others' : List α),
            Relation.ReflTransGen (RegisteredAgain name answer) (source, others)
              (source', others') →
            ∀ {ω ω' : Type} (d : Dictionary ω) (host : Host α ω) sc (d' : Dictionary ω')
              (host' : Host α ω') sc',
              d.SearchesAmong s host sc (source.candidates name others)
                ((source.candidates name others).map answer) →
              d'.SearchesAmong s host' sc' (source'.candidates name others')
                ((source'.candidates name others').map answer) →
              Agree (fun views views' => ∀ e, views.get? e = views'.get? e)
                (d.preGenerated host id sc).1 (d'.preGenerated host' id sc').1 := by
  refine ⟨fun others => firstOfNames name _, fun _ _ _ _ h => scans_eq name h, ?_⟩
  intro s hs id live hlive
  obtain ⟨content, hk, hcontent⟩ := map_eq_ok_iff.1 hlive
  obtain ⟨k, rfl, -⟩ := Option.map_eq_some_iff.1 hcontent
  obtain ⟨-, names, -, hnames, -, hinjective⟩ := hs.exists_names hk
  have hpair := Schema.pairName_of_content hk
  refine ⟨_, names, hpair, hnames, fun d host sc others answers h n herror => ?_,
    fun answer source' others others' hagain _ _ d host sc d' host' sc' h h' => ?_⟩
  · exact h.clash (firstOfNames name _).nodup hlive hpair hnames hinjective herror
  · exact h.agree h' (perm_of_registered_again hagain) hlive hpair hnames hinjective

namespace Shop

/-- An assembly under a name, with what it answers. -/
abbrev Parcel := String × Loaded

/-- An assembly with a text for the items. -/
def itemParcel : Parcel := ("Items", .ok [shipped "Shop.Item" "items"])

/-- An assembly with a text for the tags. -/
def tagParcel : Parcel := ("Tags", .ok [shipped "Shop.Tag" "tags"])

/-- Another assembly with a text for the set of the first one. -/
def rivalParcel : Parcel := ("Rivals", .ok [shipped "Shop.Item" "other items"])

/-- The entry, which has no artifacts. -/
def counter : Parcel := ("Counter", .ok [])

/-- A source that knows some assemblies and has the counter as its entry. -/
def store (known : List Parcel) : DefaultSource Parcel := ⟨known, some counter⟩

/-- A host that scans the store, whose entry refers to these. -/
def yard (known others : List Parcel) : Host Parcel (EntryClosure Parcel × Unit) where
  name := Prod.fst
  scan := (store known).scan Prod.fst fun _ => pure others
  load parcel := Act.ofExcept (reported parcel.2)

/-- A dictionary of the shop that searches for artifacts. -/
def keeper : Dictionary (EntryClosure Parcel × Unit) :=
  ⟨schema "Item" "Tag", ⟨true, true, true⟩, fun _ => Act.stop (.error (.plain "no views")), true,
    .empty⟩

/-- The scene of a new dictionary, before any scan. -/
def daybreak : Scene Parcel (EntryClosure Parcel × Unit) :=
  ⟨⟨.generatedViews, .empty, .empty, .empty, .empty, .empty, [], 0⟩, none, none, ()⟩

theorem loadAll_yard (known others parcels : List Parcel) (w : EntryClosure Parcel × Unit) :
    (yard known others).loadAll parcels w = (.ok (parcels.map Prod.snd), w) := by
  induction parcels with
  | nil => rfl
  | cons parcel parcels ih =>
    have hload : ((yard known others).load parcel).settled w = (.ok parcel.2, w) := by
      rcases parcel with ⟨_, _ | _⟩ <;> rfl
    rw [Host.loadAll, List.mapM_cons, Act.bind_apply_ok hload]
    exact Act.bind_apply_ok ih

/-- The dictionary searches the candidates of the store. -/
theorem keeper_searches (known others : List Parcel) :
    keeper.SearchesAmong (schema "Item" "Tag") (yard known others) daybreak
      ((store known).candidates Prod.fst others)
      (((store known).candidates Prod.fst others).map Prod.snd) where
  schema := rfl
  hashes := Memo.sound_empty
  answered := ⟨_, _, _, rfl, loadAll_yard known others _ _⟩

/-- First the one that the entry refers to is also known, then the entry also refers to the one that
was known. -/
theorem registered_again : Relation.ReflTransGen (DefaultSource.RegisteredAgain Prod.fst Prod.snd)
    (store [itemParcel], [tagParcel]) (store [tagParcel, itemParcel], [tagParcel, itemParcel]) :=
  .tail (.single (.known [] [itemParcel] _ _ tagParcel (.inr ⟨tagParcel, rfl, rfl⟩)))
    (.reference [tagParcel, itemParcel] counter [tagParcel] [] itemParcel (.inl (by decide)))

/-- Wherever they are found, the second text for the set is one too many. -/
theorem merge_rivals (x y : String) :
    merge extentNames (.ofContent (content "Item" "Tag"))
        [(x, shipped "Shop.Item" "items"), (y, shipped "Shop.Item" "other items")] =
      .error (Dictionary.ambiguousExtent "Shop.Item") := by
  have hfirst : mergeOne extentNames (.ofContent (content "Item" "Tag")) .empty
      (x, shipped "Shop.Item" "items") = .ok (.ofList [(.entitySet ⟨⟨0⟩, 0⟩,
        .ofText (.extent (.entitySet ⟨⟨0⟩, 0⟩)) "items" .preGenerated)]) := by
    rw [mergeOne_of_live (parse_shipped _ _)]
    rfl
  rw [merge, List.foldlM_cons, hfirst]
  change mergeOne _ _ _ _ >>= _ = _
  rw [mergeOne_of_live (parse_shipped _ _)]
  rfl

/-- Two texts for the items are refused. -/
theorem preGenerated_rivals :
    (keeper.preGenerated (yard [itemParcel, rivalParcel] []) ⟨0⟩ daybreak).1 =
      .error (.error (Dictionary.ambiguousExtent "Shop.Item")) := by
  have hload := loadAll_yard [itemParcel, rivalParcel] [] [itemParcel, rivalParcel, counter]
    (some [counter], ())
  obtain ⟨found, hfound, hmerge⟩ := @Dictionary.exists_found _ _ keeper _ ⟨0⟩ _ _ _
    (ClosureHash.compute_of_content content_eq) extentsByName_eq "Shop:Db" _ _ _ hload
  have hfound : found.map Prod.snd =
      [shipped "Shop.Item" "items", shipped "Shop.Item" "other items"] := hfound
  obtain ⟨⟨x, _⟩, _, rfl, rfl, hrest⟩ := List.map_eq_cons_iff.1 hfound
  obtain ⟨⟨y, _⟩, _, rfl, rfl, hnil⟩ := List.map_eq_cons_iff.1 hrest
  obtain rfl := List.map_eq_nil_iff.1 hnil
  have hsearch := hmerge { daybreak with
    cache := some [itemParcel, rivalParcel, counter], world := (some [counter], ()) } .empty
    ⟨Memo.sound_empty, rfl⟩
  rw [Dictionary.preGenerated]
  change ((Act.ofExcept (monadLift ((schema "Item" "Tag").pairName ⟨0⟩) :
    Except (Failure Error) _) >>= _) daybreak).1 = _
  rw [pairName_eq]
  exact hsearch.trans (congrArg reported (merge_rivals x y))

end Shop

/-- The shop finds each assembly once, also when the entry does not answer at first, and a search
ends as it does when nothing is delivered twice. Where a text for a set is refused, two assemblies
have delivered one. -/
theorem Shop.delivered_once :
    (store [tagParcel, itemParcel]).scans Prod.fst none [(fun _ => Act.stop .collaborator, ()),
        (fun _ => pure [tagParcel, itemParcel], ()), (fun _ => pure [], ())] =
      .error .collaborator :: List.replicate 2 (.ok [tagParcel, itemParcel, counter]) ∧
    Agree (fun views views' => ∀ e, views.get? e = views'.get? e)
      (keeper.preGenerated (yard [itemParcel] [tagParcel]) ⟨0⟩ daybreak).1
      (keeper.preGenerated (yard [tagParcel, itemParcel] [tagParcel, itemParcel]) ⟨0⟩
        daybreak).1 ∧
    (keeper.preGenerated (yard [itemParcel, rivalParcel] []) ⟨0⟩ daybreak).1 =
      .error (.error (Dictionary.ambiguousExtent "Shop.Item")) ∧
    Clash Prod.fst extentNames "Shop:Db" "Shop.Item" [(itemParcel, itemParcel.2),
      (rivalParcel, rivalParcel.2), (counter, counter.2)] := by
  have hlive := ClosureHash.compute_of_content content_eq
  obtain ⟨-, hscans, -⟩ := (store [tagParcel, itemParcel]).counts_once Prod.fst
  obtain ⟨-, -, hdelivered⟩ := (store [itemParcel]).counts_once Prod.fst
  obtain ⟨-, -, -, -, -, hagree⟩ := hdelivered built hlive
  obtain ⟨-, -, hrivals⟩ := (store [itemParcel, rivalParcel]).counts_once Prod.fst
  obtain ⟨pair, names, hpair, hnames, hclash, -⟩ := hrivals built hlive
  cases pairName_eq.symm.trans hpair
  cases extentsByName_eq.symm.trans hnames
  refine ⟨hscans _ [.collaborator] [tagParcel, itemParcel] [.ok []] rfl, ?_,
    preGenerated_rivals, ?_⟩
  · exact hagree Prod.snd _ _ _ registered_again keeper _ _ keeper _ _ (keeper_searches _ _)
      (keeper_searches _ _)
  · exact hclash keeper _ daybreak [] _ (keeper_searches _ _) _ preGenerated_rivals

end QueryViews
