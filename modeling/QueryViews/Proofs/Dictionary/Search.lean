import QueryViews.Proofs.Closure.Names
import QueryViews.Proofs.Dictionary.Merging
import QueryViews.Proofs.Dictionary.Sound
import QueryViews.Proofs.Text.Hexadecimal

/-!
# What a search for artifacts finds

A search loads assembly after assembly, passes over those that cannot be loaded, and adopts what was
made for the pair of a container. It has the outcome of merging the artifacts that it comes across
(`Dictionary.Searches.preGenerated`), so neither the order of the assemblies matters nor anything
that is passed over (`Harmless.alike`).

Assemblies may answer differently each time they are loaded. What counts is what they answer when
they are loaded one after another in the scene of the search.
-/

namespace QueryViews

variable {α ω : Type}

/-- What an assembly answers when it is loaded. -/
abbrev Loaded := Except Error (List Artifact)

/-- The artifacts of an assembly; none if it cannot be loaded. -/
def Loaded.artifacts (answer : Loaded) : List Artifact := answer.toOption.getD []

/-- The artifact is for a pair and has a readable hash. -/
def Artifact.counts (pair : String) (a : Artifact) : Bool := a.isReadable && a.pair = pair

/-- The artifacts that were loaded for a pair and have a readable hash. -/
def readable (pair : String) (answers : List Loaded) : List Artifact :=
  (answers.flatMap Loaded.artifacts).filter (Artifact.counts pair)

/-- What assemblies answer when they are loaded one after another. -/
def Host.loadAll (host : Host α ω) (assemblies : List α) : Act ω Fault (List Loaded) :=
  assemblies.mapM fun assembly => (host.load assembly).settled

/-- A dictionary over a schema would find assemblies in a scene that answer so. What the scene
remembers of hashes is right, as it is in every scene that a new dictionary can get into
(`Dictionary.keeps_orderly`). -/
structure Dictionary.Searches (s : Schema) (d : Dictionary ω) (host : Host α ω) (sc : Scene α ω)
    (answers : List Loaded) : Prop where
  schema : d.schema = s
  hashes : sc.tables.hashes.Sound fun id h => ClosureHash.compute s id = .ok h
  answered : ∃ assemblies cache w w', host.candidates (sc.cache, sc.world) =
    (.ok assemblies, cache, w) ∧ host.loadAll assemblies w = (.ok answers, w')

/-! ## A search merges -/

/-- What is remembered of hashes is right, and this is the state of the world. -/
structure Schema.Settled (s : Schema) (w : ω) (sc : Scene α ω) : Prop where
  hashes : sc.tables.hashes.Sound fun id h => ClosureHash.compute s id = .ok h
  world : sc.world = w

namespace Dictionary

variable {d : Dictionary ω} {host : Host α ω} {id : ContainerId} {live : ClosureHash}
  {names : OrderedMap String Extent} {w : ω} {sc : Scene α ω}

/-- The hash of a pair is that of its content, and asking for it does not change the world. -/
theorem closureHash_settled (id : ContainerId) :
    (d.closureHash id : Act (Scene α ω) Fault _).Ensures (d.schema.Settled w)
      (Expected False (ClosureHash.compute d.schema id)) := by
  refine .getOrCompute (.ofExcept (.refl _)) (fun s hs h hh => ?_) (fun s hs => ?_)
    fun s h hs hh => ?_
  · exact .inl (hs.hashes id h hh).symm
  · exact ⟨hs.hashes.reserve, hs.world⟩
  · exact ⟨hs.hashes.publish hh.eq_of_ok, hs.world⟩

/-- Judging an artifact by the names of the pair is meeting it. -/
theorem reported_mergeOne (hnames : d.schema.extentsByName id = .ok names) (assembly : String)
    (views : OrderedMap Extent View) {a : Artifact} {expected : ClosureHash}
    (hparse : ClosureHash.parse a.hash = .ok expected) :
    reported (mergeOne names live views (assembly, a)) =
      d.judge id assembly views a expected (some live) := by
  rw [mergeOne, judge, hparse, hnames]
  simp only
  by_cases hne : expected ≠ live
  · rw [if_pos hne, if_pos hne]
    rfl
  · rw [if_neg hne, if_neg hne]
    refine Eq.trans ?_ (pure_bind names _).symm
    cases namedTexts names a with
    | none => rfl
    | some texts =>
      simp only
      cases addTexts views texts <;> rfl

/-- What adopting an artifact comes to depends on the artifact only. -/
theorem adopt_settled (hlive : ClosureHash.compute d.schema id = .ok (some live))
    (hnames : d.schema.extentsByName id = .ok names) (assembly : String)
    (views : OrderedMap Extent View) (a : Artifact) :
    (d.adopt id assembly views a : Act (Scene α ω) _ _).Ensures (d.schema.Settled w)
      (Expected False (reported (mergeOne names live views (assembly, a)))) := by
  cases hparse : ClosureHash.parse a.hash with
  | error e =>
    rw [Dictionary.adopt, mergeOne, hparse]
    exact .pure (.refl _)
  | ok expected =>
    rw [d.adopt_eq id assembly views hparse, reported_mergeOne hnames assembly views hparse]
    exact (hlive ▸ closureHash_settled id).widen.known (.ofExcept (.refl _))

theorem reported_foldlM {β : Type} (f : β → Artifact → Except Error β) (l : List Artifact) (b : β) :
    l.foldlM (fun b a => reported (f b a)) b = reported (l.foldlM f b) := by
  induction l generalizing b with
  | nil => rfl
  | cons a l ih =>
    rw [List.foldlM_cons, List.foldlM_cons]
    cases f b a with
    | error e => rfl
    | ok b => exact ih b

/-- The artifacts for a pair that were loaded from an assembly, with its name. -/
def foundIn (pair : String) (assembly : String) (answer : Loaded) : List (String × Artifact) :=
  (answer.artifacts.filter (·.pair = pair)).map (assembly, ·)

/-- Adopting from an assembly loads it, and merges what was loaded. -/
theorem adoptAssembly_settled (hlive : ClosureHash.compute d.schema id = .ok (some live))
    (hnames : d.schema.extentsByName id = .ok names) (pair : String)
    (views : OrderedMap Extent View) (assembly : α) {answer : Loaded} {w' : ω}
    (hsc : d.schema.Settled w sc) (hload : (host.load assembly).settled w = (.ok answer, w')) :
    ∃ sc', d.schema.Settled w' sc' ∧ d.adoptAssembly host id pair views assembly sc =
      (reported ((foundIn pair (host.name assembly) answer).foldlM (mergeOne names live) views),
        sc') := by
  -- loading changes the world, and nothing after it does
  have hloaded : (Scene.inWorld (host.load assembly)).settled sc =
      (.ok answer, { sc with world := w' }) := by
    rw [← hsc.world] at hload
    rw [Act.settled] at hload ⊢
    rw [Scene.inWorld, Act.zoom]
    rcases hrun : host.load assembly sc.world with ⟨(_ | _) | _, w₁⟩ <;> rw [hrun] at hload <;>
      cases hload <;> rfl
  have hwiden : ((Scene.inWorld (host.load assembly)).settled.widen :
      Act (Scene α ω) (Failure Error) Loaded) sc = (.ok answer, { sc with world := w' }) := by
    rw [Act.widen, Act.mapFailure, hloaded]
  have hsc' : d.schema.Settled w' { sc with world := w' } := ⟨hsc.hashes, rfl⟩
  rw [Dictionary.adoptAssembly, Act.bind_apply_ok hwiden, foundIn]
  cases answer with
  | error e => exact ⟨_, hsc', rfl⟩
  | ok artifacts =>
    obtain ⟨hstate, houtcome⟩ := Act.Ensures.foldlM
      (fun views a => adopt_settled hlive hnames (host.name assembly) views a)
      (artifacts.filter (·.pair = pair)) views _ hsc'
    refine ⟨_, hstate, Prod.ext ?_ rfl⟩
    rw [reported_foldlM] at houtcome
    change _ = reported (((artifacts.filter _).map _).foldlM _ _)
    rw [List.foldlM_map]
    exact houtcome.resolve_right fun h => h.1

/-- Loading assemblies one after another, a search merges the artifacts that it comes across. -/
theorem exists_found (hlive : ClosureHash.compute d.schema id = .ok (some live))
    (hnames : d.schema.extentsByName id = .ok names) (pair : String) {assemblies : List α}
    {answers : List Loaded} {w' : ω} (hload : host.loadAll assemblies w = (.ok answers, w')) :
    ∃ found : List (String × Artifact),
      found.map Prod.snd = (answers.flatMap Loaded.artifacts).filter (·.pair = pair) ∧
      ∀ (sc : Scene α ω) views, d.schema.Settled w sc →
        (assemblies.foldlM (d.adoptAssembly host id pair) views sc).1 =
          reported (found.foldlM (mergeOne names live) views) := by
  induction assemblies generalizing answers w with
  | nil =>
    cases hload
    exact ⟨[], rfl, fun _ _ _ => rfl⟩
  | cons assembly assemblies ih =>
    rw [Host.loadAll, List.mapM_cons] at hload
    obtain ⟨answer, w₁, hanswer, hload⟩ := Act.bind_apply_eq_ok hload
    obtain ⟨rest, w₂, hrest, hr⟩ := Act.bind_apply_eq_ok hload
    cases hr
    obtain ⟨found, hfound, hmerge⟩ := ih hrest
    refine ⟨foundIn pair (host.name assembly) answer ++ found, ?_, fun sc views hsc => ?_⟩
    · rw [List.map_append, hfound, List.flatMap_cons, List.filter_append, foundIn, List.map_map]
      exact congrArg (· ++ _) (List.map_id _)
    -- the scene is as settled after one assembly as it was before
    · obtain ⟨sc', hsc', hadopt⟩ := adoptAssembly_settled hlive hnames pair views assembly hsc
        hanswer
      rw [List.foldlM_cons, List.foldlM_append, Act.bind_apply, hadopt]
      cases (foundIn pair (host.name assembly) answer).foldlM (mergeOne names live) views with
      | error e => rfl
      | ok views => exact hmerge sc' views hsc'

/-- A search has the outcome of merging what it comes across. -/
theorem Searches.exists_merge {s : Schema} {answers : List Loaded}
    (h : Searches s d host sc answers) {pair : String}
    (hlive : ClosureHash.compute s id = .ok (some live)) (hpair : s.pairName id = .ok pair)
    (hnames : s.extentsByName id = .ok names) :
    ∃ found : List (String × Artifact),
      (found.map Prod.snd).filter Artifact.isReadable = readable pair answers ∧
      (d.preGenerated host id sc).1 = reported (merge names live found) := by
  obtain ⟨rfl, hhashes, assemblies, cache, w, w', hcandidates, hload⟩ := h
  obtain ⟨found, hfound, hmerge⟩ := exists_found hlive hnames pair hload
  refine ⟨found, ?_, ?_⟩
  · rw [hfound, List.filter_filter]
    rfl
  · have hseen : ((Scene.inCache host.candidates).widen : Act (Scene α ω) (Failure Error) _) sc =
        (.ok assemblies, { sc with cache, world := w }) := by
      rw [Act.widen, Act.mapFailure, Scene.inCache, Act.zoom, hcandidates]
    rw [Dictionary.preGenerated, hpair]
    change ((((Scene.inCache host.candidates).widen : Act (Scene α ω) (Failure Error) _) >>=
      fun candidates => candidates.foldlM (d.adoptAssembly host id pair) .empty) sc).1 = _
    rw [Act.bind_apply_ok hseen]
    exact hmerge _ .empty ⟨hhashes, rfl⟩

end Dictionary

/-! ## What is passed over -/

/-- An artifact that a search for a pair passes over: one for another pair, one with an unreadable
hash, or one that was made from this mapping and has an unknown name. -/
def Artifact.Idle (names : OrderedMap String Extent) (live : ClosureHash) (pair : String)
    (a : Artifact) : Prop :=
  a.pair ≠ pair ∨ a.isReadable = false ∨
    ClosureHash.parse a.hash = .ok live ∧ ¬ a.Familiar names

/-- A change of what assemblies answer that makes no difference to a search. -/
inductive Harmless (names : OrderedMap String Extent) (live : ClosureHash) (pair : String) :
    List Loaded → List Loaded → Prop
  /-- the assemblies come in another order -/
  | permute {answers answers' : List Loaded} (h : answers.Perm answers') :
    Harmless names live pair answers answers'
  /-- an assembly that cannot be loaded is left out -/
  | unloadable (before after : List Loaded) (e : Error) :
    Harmless names live pair (before ++ .error e :: after) (before ++ after)
  /-- an assembly is without an artifact that is passed over -/
  | idle (before after : List Loaded) (l l' : List Artifact) (a : Artifact)
    (h : a.Idle names live pair) :
    Harmless names live pair (before ++ .ok (l ++ a :: l') :: after)
      (before ++ .ok (l ++ l') :: after)

section Harmless

variable {names : OrderedMap String Extent} {live : ClosureHash} {pair : String}
  {answers answers' : List Loaded}

theorem readable_append (before after : List Loaded) :
    readable pair (before ++ after) = readable pair before ++ readable pair after := by
  rw [readable, List.flatMap_append, List.filter_append]
  rfl

theorem readable_cons_ok (l : List Artifact) (after : List Loaded) :
    readable pair (.ok l :: after) =
      l.filter (Artifact.counts pair) ++ readable pair after := by
  rw [readable, List.flatMap_cons, List.filter_append]
  rfl

/-- What is refused, and what artifacts are merged to, is the same after a harmless change. -/
theorem Harmless.alike (h : Harmless names live pair answers answers') :
    (Refused names live (readable pair answers) ↔ Refused names live (readable pair answers')) ∧
      ∀ views, Merged names (readable pair answers) views ↔
        Merged names (readable pair answers') views := by
  cases h with
  | permute h =>
    have hp : (readable pair answers).Perm (readable pair answers') :=
      (h.flatMap fun _ _ => .refl _).filter _
    exact ⟨refused_iff_of_perm hp, fun _ => merged_iff_of_perm hp⟩
  | unloadable before after e =>
    rw [readable_append, readable_append]
    exact ⟨.rfl, fun _ => .rfl⟩
  | idle before after l l' a h =>
    rw [readable_append, readable_append, readable_cons_ok, readable_cons_ok, List.filter_append,
      List.filter_append]
    cases hcounts : a.counts pair with
    | false =>
      rw [List.filter_cons_of_neg (by rw [hcounts]; decide)]
      exact ⟨.rfl, fun _ => .rfl⟩
    | true =>
      obtain ⟨hreadable, hpair⟩ := (Bool.and_eq_true _ _).mp hcounts
      have hcounted := h.resolve_left (not_not.2 (of_decide_eq_true hpair))
      obtain ⟨hparse, hunknown⟩ := hcounted.resolve_left (by rw [hreadable]; decide)
      rw [List.filter_cons_of_pos hcounts, List.append_assoc, List.append_assoc, List.cons_append]
      -- wherever the artifact is, it could as well be the first one, and there it does not matter
      have hp : (readable pair before ++ (l.filter (Artifact.counts pair) ++
            a :: (l'.filter (Artifact.counts pair) ++ readable pair after))).Perm
          (a :: (readable pair before ++ (l.filter (Artifact.counts pair) ++
            (l'.filter (Artifact.counts pair) ++ readable pair after)))) :=
        (List.perm_middle.append_left _).trans List.perm_middle
      exact ⟨(refused_iff_of_perm hp).trans (refused_cons_iff hparse hunknown),
        fun _ => (merged_iff_of_perm hp).trans (merged_cons_iff hunknown)⟩

end Harmless

/-! ## Every search -/

/-- The names under which the extents of a pair are found are their qualified names. -/
theorem Schema.Built.exists_names {s : Schema} (hs : s.Built) {id : ContainerId} {k : Content}
    (hk : s.content id = .ok (some k)) :
    ∃ extents names, s.extents id = .ok extents ∧ s.extentsByName id = .ok names ∧
      (∀ n, n ∈ names.keys ↔ ∃ e ∈ extents, s.extentName e = .ok n) ∧
      ∀ n n' e, names.get? n = some e → names.get? n' = some e → n = n' := by
  obtain ⟨extents, hextents, hns⟩ := hs.extentNames_of_content hk
  obtain ⟨names, hnames, hfinds⟩ := Schema.exists_extentsByName hextents hns
  refine ⟨extents, names, hextents, hnames, fun n => ⟨fun hn => ?_, ?_⟩,
    fun _ _ _ => Schema.name_eq_of_extentsByName hextents hnames⟩
  · obtain ⟨e, he⟩ := OrderedMap.exists_get?_iff.2 hn
    exact ⟨e, Schema.mem_extents_of_extentsByName hextents hnames he⟩
  · rintro ⟨e, he, hname⟩
    obtain ⟨n', hn', hname'⟩ := exists_mem_of_mapM hns he
    cases hname.symm.trans hname'
    exact OrderedMap.exists_get?_iff.1 (hfinds n hn')

/-- **A search is fixed by what it comes across, in whatever order.** Let a container of a built
schema be mapped, and have a hash. The search for artifacts of its pair, with assemblies that answer
in some way when they are loaded, looks at the artifacts for the pair that have a readable hash:

* if one of them has another hash than the mapping, or two of those with names of extents of the
  pair only have a text for one extent, the search ends with a mapping error;
* otherwise all of them have the hash of the mapping, and the search ends with every text of those
  with names of extents of the pair only, under the extent of its name, and with nothing else;
* if assemblies come in another order, or without an assembly that cannot be loaded, or without an
  artifact that is for another pair, has an unreadable hash, or has the hash of the mapping and an
  unknown name, the search ends with an error as before, or with the same view for each extent. -/
theorem Schema.Built.preGenerated_determined {s : Schema} (hs : s.Built) {id : ContainerId}
    {live : ClosureHash} (hlive : ClosureHash.compute s id = .ok (some live)) :
    ∃ pair extents names, s.pairName id = .ok pair ∧ s.extents id = .ok extents ∧
      s.extentsByName id = .ok names ∧
      (∀ n, n ∈ names.keys ↔ ∃ e ∈ extents, s.extentName e = .ok n) ∧
      ∀ {α ω : Type} (d : Dictionary ω) (host : Host α ω) sc answers,
        d.Searches s host sc answers →
        let artifacts := readable pair answers
        let outcome := (d.preGenerated host id sc).1
        (Refused names live artifacts → ∃ e, outcome = .error (.error e) ∧ e.isMapping) ∧
        (¬ Refused names live artifacts → ∃ views, outcome = .ok views ∧
          Merged names artifacts views ∧
          ∀ a ∈ artifacts, ClosureHash.parse a.hash = .ok live) ∧
        ∀ {α' ω' : Type} (d' : Dictionary ω') (host' : Host α' ω') sc' answers',
          d'.Searches s host' sc' answers' → Harmless names live pair answers answers' →
          Agree (fun views views' => ∀ e, views.get? e = views'.get? e) outcome
            (d'.preGenerated host' id sc').1 := by
  obtain ⟨content, hk, hcontent⟩ := map_eq_ok_iff.1 hlive
  obtain ⟨k, rfl, -⟩ := Option.map_eq_some_iff.1 hcontent
  obtain ⟨extents, names, hextents, hnames, hkeys, hinjective⟩ := hs.exists_names hk
  have hpair := Schema.pairName_of_content hk
  -- every search is a merge, which is refused or not
  have hcases {α ω : Type} {d : Dictionary ω} {host : Host α ω} {sc : Scene α ω}
      {answers : List Loaded} (h : d.Searches s host sc answers) :
      let artifacts := readable s!"{k.conceptual}:{k.store}" answers
      let outcome := (d.preGenerated host id sc).1
      (∃ views, outcome = .ok views ∧ ¬ Refused names live artifacts ∧
          Merged names artifacts views) ∨
        ∃ e, outcome = .error (.error e) ∧ e.isMapping ∧ Refused names live artifacts := by
    obtain ⟨found, hfound, houtcome⟩ := h.exists_merge hlive hpair hnames
    rw [← hfound, houtcome]
    rcases merge_cases hinjective found with ⟨views, hviews, h⟩ | ⟨e, he, h⟩
    · exact .inl ⟨views, by rw [hviews]; rfl, h⟩
    · exact .inr ⟨e, by rw [he]; rfl, h⟩
  refine ⟨_, extents, names, hpair, hextents, hnames, hkeys, fun d host sc answers h => ?_⟩
  refine ⟨fun hr => ?_, fun hr => ?_, fun d' host' sc' answers' h' hharmless => ?_⟩
  · rcases hcases h with ⟨views, -, hn, -⟩ | ⟨e, he, hmapping, -⟩
    · exact absurd hr hn
    · exact ⟨e, he, hmapping⟩
  · rcases hcases h with ⟨views, hviews, -, hm⟩ | ⟨e, -, -, hr'⟩
    · exact ⟨views, hviews, hm, fun a ha => not_not.1 fun hne => hr (.inl ⟨a, ha, hne⟩)⟩
    · exact absurd hr' hr
  · obtain ⟨hrefused, hmerged⟩ := hharmless.alike
    rcases hcases h with ⟨views, hviews, hr, hm⟩ | ⟨e, he, -, hr⟩ <;>
      rcases hcases h' with ⟨views', hviews', hr', hm'⟩ | ⟨e', he', -, hr'⟩
    · rw [hviews, hviews']
      refine .ok fun e => Option.ext fun v => (hm e v).trans ?_
      exact ((hmerged views').2 hm' e v).symm
    · exact absurd (hrefused.2 hr') hr
    · exact absurd (hrefused.1 hr) hr'
    · rw [he, he']
      exact .error _ _

namespace Shop

/-- An artifact made for the shop, with one text. -/
def shipped (name text : String) : Artifact :=
  ⟨"Shop:Db", (ClosureHash.ofContent (content "Item" "Tag")).text, .ofList [(name, text)]⟩

/-- One assembly cannot be loaded, and one has an artifact with a name that the shop has not. -/
def shipments : List Loaded := [
  .error (.plain "lost"),
  .ok [shipped "Shop.Item" "items", shipped "Shop.Toy" "toys"],
  .ok [shipped "Shop.Tag" "tags"]]

/-- Assemblies that are what they answer. -/
def dock : Host Loaded Unit where
  name _ := "Views"
  scan := pure shipments
  load answer := Act.ofExcept (reported answer)

/-- A dictionary of the shop that searches for artifacts. -/
def clerk : Dictionary Unit :=
  ⟨schema "Item" "Tag", ⟨true, true, true⟩, fun _ => Act.stop (.error (.plain "no views")), true,
    .empty⟩

/-- The scene of a new dictionary. -/
def opening : Scene Loaded Unit :=
  ⟨⟨.generatedViews, .empty, .empty, .empty, .empty, .empty, [], 0⟩, none, ()⟩

/-- The clerk finds what was shipped. -/
theorem searches : clerk.Searches (schema "Item" "Tag") dock opening shipments where
  schema := rfl
  hashes := Memo.sound_empty
  answered := ⟨shipments, some shipments, (), (), rfl, rfl⟩

/-- The extents of the shop under their qualified names. -/
def extentNames : OrderedMap String Extent := .ofList [
  ("Shop.Item", .entitySet ⟨⟨0⟩, 0⟩), ("Shop.Tag", .entitySet ⟨⟨0⟩, 1⟩),
  ("Db.Item", .table ⟨0⟩), ("Db.Tag", .table ⟨1⟩)]

theorem pairName_eq : (schema "Item" "Tag").pairName ⟨0⟩ = .ok "Shop:Db" := rfl

theorem extentsByName_eq : (schema "Item" "Tag").extentsByName ⟨0⟩ = .ok extentNames := rfl

theorem parse_shipped (name text : String) : ClosureHash.parse (shipped name text).hash =
    .ok (ClosureHash.ofContent (content "Item" "Tag")) :=
  ClosureHash.parse_text _

/-- A shipped artifact has the one text, if its name is known. -/
theorem gives_shipped {names : OrderedMap String Extent} {name text t : String} {e : Extent} :
    (shipped name text).Gives names e t ↔ names.get? name = some e ∧ text = t := by
  have hget (n : String) :
      (shipped name text).views.get? n = if name = n then some text else none :=
    OrderedMap.get?_insert .empty name n text
  simp only [Artifact.Gives, hget, Option.ite_none_right_eq_some, Option.some.injEq]
  constructor
  · rintro ⟨n, hn, rfl, ht⟩
    exact ⟨hn, ht⟩
  · rintro ⟨hn, ht⟩
    exact ⟨name, hn, rfl, ht⟩

/-- What can be read of the shipments. -/
theorem readable_shipments : readable "Shop:Db" shipments =
    [shipped "Shop.Item" "items", shipped "Shop.Toy" "toys", shipped "Shop.Tag" "tags"] := by
  have hcounts (name text : String) : (shipped name text).counts "Shop:Db" = true := by
    rw [Artifact.counts, Artifact.isReadable_iff.2 ⟨_, parse_shipped name text⟩]
    rfl
  rw [readable, List.filter_eq_self.2]
  · rfl
  · intro a ha
    have ha : a ∈ [shipped "Shop.Item" "items", shipped "Shop.Toy" "toys",
        shipped "Shop.Tag" "tags"] := ha
    simp only [List.mem_cons, List.not_mem_nil, or_false] at ha
    rcases ha with rfl | rfl | rfl <;> exact hcounts _ _

/-- All are made for the shop, and no two for the same set. -/
theorem not_refused_shipments : ¬ Refused extentNames (.ofContent (content "Item" "Tag"))
    [shipped "Shop.Item" "items", shipped "Shop.Toy" "toys", shipped "Shop.Tag" "tags"] := by
  have hdistinct : (["Shop.Item", "Shop.Toy", "Shop.Tag"].map extentNames.get?).Pairwise
      fun o o' => ∀ e ∈ o, e ∉ o' := by decide
  rintro (⟨a, ha, hne⟩ | h)
  · simp only [List.mem_cons, List.not_mem_nil, or_false] at ha
    rcases ha with rfl | rfl | rfl <;> exact hne (parse_shipped _ _)
  · refine h (List.Pairwise.filter _ ?_)
    have hcase {n n' t t' : String}
        (hn : ∀ e ∈ extentNames.get? n, e ∉ extentNames.get? n') :
        ¬ (shipped n t).Overlaps extentNames (shipped n' t') := by
      rintro ⟨e, u, u', hg, hg'⟩
      exact hn e (gives_shipped.1 hg).1 (gives_shipped.1 hg').1
    simp only [List.map_cons, List.map_nil, List.pairwise_cons, List.mem_cons, List.not_mem_nil,
      or_false, forall_eq_or_imp, forall_eq] at hdistinct ⊢
    exact ⟨⟨hcase hdistinct.1.1, hcase hdistinct.1.2⟩, hcase hdistinct.2.1, fun _ h => h.elim, .nil⟩

end Shop

/-- The shop is shipped views of both sets in different assemblies, and both are adopted; what has a
name that the shop has not is left alone. -/
theorem Shop.preGenerated_shipments : ∃ views,
    (clerk.preGenerated dock ⟨0⟩ opening).1 = .ok views ∧
      views.get? (.entitySet ⟨⟨0⟩, 0⟩) =
        some (.ofText (.extent (.entitySet ⟨⟨0⟩, 0⟩)) "items" .preGenerated) ∧
      views.get? (.entitySet ⟨⟨0⟩, 1⟩) =
        some (.ofText (.extent (.entitySet ⟨⟨0⟩, 1⟩)) "tags" .preGenerated) := by
  obtain ⟨pair, extents, names, hpair, -, hnames, -, hsearch⟩ :=
    built.preGenerated_determined (ClosureHash.compute_of_content content_eq)
  cases pairName_eq.symm.trans hpair
  cases extentsByName_eq.symm.trans hnames
  obtain ⟨-, hmerged, -⟩ := hsearch clerk dock opening shipments searches
  rw [readable_shipments] at hmerged
  obtain ⟨views, hviews, hm, -⟩ := hmerged not_refused_shipments
  have hfamiliar {name text : String} (h : name ∈ extentNames.keys) :
      (shipped name text).Familiar extentNames := fun n hn => by
    obtain rfl : n = name := List.mem_singleton.1 hn
    exact h
  refine ⟨views, hviews, (hm _ _).2 ?_, (hm _ _).2 ?_⟩
  · exact ⟨shipped "Shop.Item" "items", by simp, hfamiliar (by decide), "items",
      gives_shipped.2 ⟨by decide, rfl⟩, rfl⟩
  · exact ⟨shipped "Shop.Tag" "tags", by simp, hfamiliar (by decide), "tags",
      gives_shipped.2 ⟨by decide, rfl⟩, rfl⟩

end QueryViews
