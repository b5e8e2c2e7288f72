import QueryViews.Proofs.Closure.Faithful
import QueryViews.Proofs.Dictionary.Replies
import QueryViews.Proofs.Session.Run

/-!
# A session answers like its references

The dictionaries of a session share a scan cache, and each has memo tables and a mode of its own.
Among collaborators that answer equal questions equally (`Surroundings.Steady`) none of that can be
told from the answers: each is the one of a reference, which has no tables and no cache
(`Session.Run.answers`).

The invariant is that the shared cache holds what a scan finds, and that each dictionary remembers
the containers that the steps at its own place asked for (`Session.Run.remembers`).
-/

namespace QueryViews

variable {α ω : Type}

/-- Plain functions that the collaborators of a session compute. -/
structure Surroundings (α : Type) where
  assemblies : List α
  artifacts : α → Except Error (List Artifact)
  /-- the generator of the dictionary at a place -/
  generate : Nat → Request → Except Error Generated

namespace Surroundings

/-- The collaborators of a session answer what the functions answer, whatever the state of the
world. They may fault at any time. -/
structure Steady (su : Surroundings α) (s : Session α ω) : Prop where
  cache : s.cache.Fits su.assemblies
  scan : ∀ w, Expected True (.ok su.assemblies) (s.host.scan w).1
  load : ∀ a w, Expected True (reported (su.artifacts a)) (s.host.load a w).1
  generator : ∀ place d tables, s.dictionaries[place]? = some (d, tables) →
    ∀ q w, Expected True (reported (su.generate place q)) (d.generator q w).1

/-- A dictionary at a place without its memory. One that does not share the assemblies sees none. -/
def reference (su : Surroundings α) (name : α → String) (place : Nat) (d : Dictionary ω) :
    Reference α where
  schema := d.schema
  config := d.config
  generate := su.generate place
  name := name
  assemblies := if d.sharesAssemblies then su.assemblies else []
  artifacts := su.artifacts

variable {su : Surroundings α} {s : Session α ω}

/-- A new dictionary is described by its reference, whether or not it sees the assemblies. -/
theorem Steady.describes (hs : su.Steady s) {place : Nat} {d : Dictionary ω} {tables : Tables}
    (hd : s.dictionaries[place]? = some (d, tables)) {schema : Schema} {config : Config}
    {generator : Generator ω} {shares : Bool}
    (hstart : Dictionary.start schema config (some generator) shares = .ok (d, tables)) :
    (su.reference s.host.name place d).Describes True d (s.host.seenBy d) := by
  have hgenerator := hs.generator place d tables hd
  cases hstart
  cases shares with
  | true => exact ⟨⟨rfl, rfl, rfl, rfl, hs.scan, hs.load⟩, hgenerator⟩
  | false => exact ⟨⟨rfl, rfl, rfl, rfl, fun _ => .refl _, hs.load⟩, hgenerator⟩

/-- What a dictionary sees of a cache that holds what a scan finds. -/
theorem fits_reference {cache : ScanCache α} {d : Dictionary ω}
    (hshared : d.sharesAssemblies → cache.Fits su.assemblies)
    (halone : ¬ d.sharesAssemblies → cache = none) (name : α → String) (place : Nat) :
    cache.Fits (su.reference name place d).assemblies := by
  rw [reference]
  by_cases hd : d.sharesAssemblies
  · rw [if_pos hd]
    exact hshared hd
  · rw [halone hd]
    exact .none _

end Surroundings

/-- What an event was answered, without serial numbers. -/
def Event.reply (e : Event) : Except (Failure Error) Reply :=
  told Answer.reply (e.outcome.mapError .error)

namespace Reference

variable {ref : Reference α} {asked : List ContainerId} {sc : Scene α ω}

/-- What a dictionary remembers does not depend on the world, nor on what a scan found. -/
theorem Remembers.scene (h : ref.Remembers asked sc) {cache : ScanCache α}
    (hcache : cache.Fits ref.assemblies) (w : ω) :
    ref.Remembers asked ⟨sc.tables, cache, w⟩ :=
  ⟨h.elsewhere hcache .., h.mode, h.pairs, h.resolved⟩

/-- A search that ends well without a view found nothing at all. -/
theorem vacant_iff {id : ContainerId} : ref.vacant id = true ↔ ref.lookup id = .ok .empty := by
  rw [vacant]
  rcases ref.lookup id with f | views
  · simp
  · rw [Except.ok.injEq]
    refine ⟨fun h => OrderedMap.ext (List.isEmpty_iff.1 h), fun h => ?_⟩
    rw [h]
    rfl

/-- The mode in which a dictionary is once some pairs were asked for. -/
theorem modeAfter_eq_runtimeGeneration_iff : ref.modeAfter asked = .runtimeGeneration ↔
    ref.config.preGeneratedViews = false ∨ ∃ id ∈ asked, ref.lookup id = .ok .empty := by
  have hany : asked.any ref.vacant = true ↔ ∃ id ∈ asked, ref.lookup id = .ok .empty := by
    simp only [List.any_eq_true, vacant_iff]
  rw [← hany, modeAfter]
  cases ref.config.preGeneratedViews <;> cases asked.any ref.vacant <;> decide

/-- A new dictionary remembers nothing. -/
theorem remembers_start {schema : Schema} {config : Config} {generator : Generator ω}
    {shares : Bool} {d : Dictionary ω} {tables : Tables}
    (hstart : Dictionary.start schema config (some generator) shares = .ok (d, tables))
    (hconfig : ref.config = d.config) {cache : ScanCache α} (hcache : cache.Fits ref.assemblies)
    (w : ω) :
    ref.Remembers [] ⟨tables, cache, w⟩ := by
  cases hstart
  refine ⟨⟨hcache, Memo.sound_empty, Memo.sound_empty, Memo.sound_empty, Memo.sound_empty⟩, ?_,
    Memo.sound_empty, fun id => ?_⟩
  · rw [modeAfter, hconfig]
    cases config.preGeneratedViews <;> rfl
  · simp [Memo.get?, Memo.empty]

end Reference

namespace Session

variable {su : Surroundings α} {s₀ s s' : Session α ω} {events : List Event}

/-- Every dictionary of a session is as it was started. -/
def Fresh (s : Session α ω) : Prop :=
  ∀ d tables, (d, tables) ∈ s.dictionaries → ∃ schema config generator shares,
    Dictionary.start schema config (some generator) shares = .ok (d, tables)

/-- In a run from new dictionaries, the dictionary at a place remembers what the steps at that place
asked for, in every scene that it can be in next. -/
theorem Run.remembers (run : s₀.Run events s) (hs : su.Steady s₀) (hfresh : s₀.Fresh)
    {place : Nat} {d : Dictionary ω} {tables : Tables}
    (hd : s.dictionaries[place]? = some (d, tables)) :
    let ref := su.reference s₀.host.name place d
    ref.Describes True d (s₀.host.seenBy d) ∧
      ref.Remembers (d.askedAt place events) (s.sceneOf d tables) := by
  intro ref
  obtain ⟨tables₀, hd₀⟩ := run.unmoved.2 place d tables hd
  obtain ⟨schema, config, generator, shares, hstart⟩ := hfresh d tables₀ (List.mem_of_getElem? hd₀)
  have hdescribes : ref.Describes True d (s₀.host.seenBy d) := hs.describes hd₀ hstart
  -- the world and the cache change between two steps at the place, so the invariant is about every
  -- world and every cache that holds what a scan finds
  have hscan (w : ω) (found : List α) (hfound : (s₀.host.scan w).1 = .ok found) :
      found = su.assemblies := (hs.scan w).value_eq hfound
  obtain ⟨hcache, tables', hd', hmemory⟩ := run.invariant
    (C := fun cache => cache.Fits su.assemblies)
    (P := fun asked tables => ∀ (cache : ScanCache α) w, cache.Fits ref.assemblies →
      ref.Remembers asked ⟨tables, cache, w⟩)
    hd₀ hs.cache (fun cache w hcache => Reference.remembers_start hstart rfl hcache w)
    (fun d' _ step sc h => (d'.cache_fits hscan step sc h).1)
    fun asked step sc hshared halone hmemory hquiet cache w hcache => by
      have hfits := Surroundings.fits_reference hshared halone s₀.host.name place
      exact ((hdescribes.perform (hmemory _ sc.world hfits) step).2 hquiet).scene hcache w
  obtain rfl : tables' = tables := by
    rw [hd] at hd'
    cases hd'
    rfl
  refine ⟨hdescribes, hmemory _ _ (Surroundings.fits_reference (fun h => ?_) (fun h => ?_) _ _)⟩
  · rw [if_pos h]
    exact hcache
  · rw [if_neg h]

/-- An event is answered as the reference of its dictionary answers. -/
theorem Run.reply_eq (run : s₀.Run events s) (hs : su.Steady s₀) (hfresh : s₀.Fresh)
    {before after : List Event} {e : Event} (hevents : events = before ++ e :: after) :
    ∃ d tables, s₀.dictionaries[e.place]? = some (d, tables) ∧
      let ref := su.reference s₀.host.name e.place d
      ∀ reply, ref.reply? (d.askedAt e.place before) e.step = some reply → e.reply = reply := by
  obtain ⟨s₁, s₂, hrun, hstep⟩ := run.split hevents
  obtain ⟨d, tables, hd, houtcome, -⟩ := step_cases hstep
  obtain ⟨tables₀, hd₀⟩ := hrun.unmoved.2 e.place d tables hd
  refine ⟨d, tables₀, hd₀, fun reply hreply => ?_⟩
  obtain ⟨hdescribes, hremembers⟩ := hrun.remembers hs hfresh hd
  have hexpected := (hdescribes.perform hremembers e.step).1 reply hreply
  rw [← hrun.unmoved.1, ← houtcome] at hexpected
  rcases hexpected with heq | ⟨-, f, hfault⟩
  · exact heq
  · rcases houtcome' : e.outcome with x | x <;> rw [houtcome'] at hfault <;> cases hfault

end Session

/-! ## A shop -/

namespace Shop

/-- The set of items. -/
def items : Extent := .entitySet ⟨⟨0⟩, 0⟩

/-- The set of tags. -/
def tags : Extent := .entitySet ⟨⟨0⟩, 1⟩

/-- The view of one set of the pair, and of no other. -/
def generated : Generated := ⟨.ofList [(items, .text "items")], []⟩

/-- One assembly without artifacts. -/
def surroundings : Surroundings Unit := ⟨[()], fun _ => .ok [], fun _ _ => .ok generated⟩

/-- The host of these surroundings. -/
def host : Host Unit Unit := ⟨fun _ => "Views", pure [()], fun _ => pure []⟩

/-- A dictionary of the shop, which may share the assemblies. -/
def dictionary (shares : Bool) : Dictionary Unit :=
  ⟨schema "Item" "Tag", ⟨true, true, true⟩, fun _ => pure generated, shares, .empty⟩

/-- The tables of a new dictionary that searches for artifacts. -/
def tables : Tables := ⟨.generatedViews, .empty, .empty, .empty, .empty, .empty, [], 0⟩

/-- Two dictionaries of the shop, of which the first shares the assemblies. -/
def session : Session Unit Unit :=
  ⟨host, [(dictionary true, tables), (dictionary false, tables)], none, ()⟩

/-- The first dictionary has a view to give, the second one has none, and then the first is
cleared. -/
def events : List Event := [
  ⟨0, .getView items, .ok (.view ⟨0, .ofText (.extent items) "items" .runtime⟩)⟩,
  ⟨1, .getView tags, .error ⟨1, .viewNotGenerated "Shop.Tag"⟩⟩,
  ⟨0, .clearCache, .ok .cleared⟩]

theorem steady : surroundings.Steady session where
  cache := .none _
  scan := fun _ => .refl _
  load := fun _ _ => .refl _
  generator := by
    intro place d tables hd q w
    obtain ⟨hlt, -⟩ := List.getElem?_eq_some_iff.1 hd
    rcases place with _ | _ | _
    · cases hd
      exact .refl _
    · cases hd
      exact .refl _
    · cases hd

/-- Both dictionaries are new. -/
theorem fresh : session.Fresh := by
  intro d tables h
  rcases List.mem_pair.1 h with h | h <;> cases h
  · exact ⟨_, _, _, true, rfl⟩
  · exact ⟨_, _, _, false, rfl⟩

/-- That is what happens. -/
theorem run : ∃ s, session.Run events s :=
  ⟨_, .step (.step (.step .start rfl) rfl) rfl⟩

end Shop

/-! ## Every answer -/

namespace Session

variable {su : Surroundings α} {s₀ s : Session α ω} {events : List Event}

/-- **A session cannot be told from its references.** In a run from new dictionaries, among
collaborators that answer equal questions equally,

* every event is answered as the reference of its dictionary answers, given the containers whose
  pairs were asked for before at that place;
* a dictionary generates at runtime exactly if it was told to, or if it asked for a pair whose
  search ends well and finds nothing. -/
theorem Run.answers (run : s₀.Run events s) (hs : su.Steady s₀) (hfresh : s₀.Fresh) :
    (∀ before e after, events = before ++ e :: after →
      ∃ d tables, s₀.dictionaries[e.place]? = some (d, tables) ∧
        let ref := su.reference s₀.host.name e.place d
        ∀ reply, ref.reply? (d.askedAt e.place before) e.step = some reply →
          e.reply = reply) ∧
    ∀ place d tables, s.dictionaries[place]? = some (d, tables) →
      let ref := su.reference s₀.host.name place d
      tables.mode = .runtimeGeneration ↔ d.config.preGeneratedViews = false ∨
        ∃ id ∈ d.askedAt place events, ref.lookup id = .ok .empty := by
  refine ⟨fun before e after hevents => run.reply_eq hs hfresh hevents,
    fun place d tables hd => ?_⟩
  have hmode : tables.mode = _ := (run.remembers hs hfresh hd).2.mode
  rw [hmode]
  exact Reference.modeAfter_eq_runtimeGeneration_iff

/-- In a run in the shop, one dictionary finds a view, and the other one is told that there is none,
as its reference says. -/
theorem shop_answers :
    ∃ s, Shop.session.Run Shop.events s ∧ Shop.surroundings.Steady Shop.session ∧
      Shop.session.Fresh ∧
      let ref := Shop.surroundings.reference Shop.host.name 1 (Shop.dictionary false)
      Reply.view <$> ref.view [] Shop.tags = refuse (.viewNotGenerated "Shop.Tag") := by
  obtain ⟨s, run⟩ := Shop.run
  obtain ⟨hreplies, -⟩ := run.answers Shop.steady Shop.fresh
  obtain ⟨d, tables, hd, hreply⟩ := hreplies [_] _ [_] rfl
  cases hd
  exact ⟨s, run, Shop.steady, Shop.fresh, (hreply _ rfl).symm⟩

end Session

end QueryViews
