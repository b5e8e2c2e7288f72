import QueryViews.Proofs.Dictionary.Holdings
import QueryViews.Proofs.Dictionary.Replies

/-!
# A dictionary that adopts

While a dictionary has asked for one pair only, and the search for that pair finds something, it
**adopts** (`Reference.Adopts`): it goes on searching for artifacts, and what it resolved is what
the search finds. The generator is not asked for the pair, so it may be any other generator
(`Reference.Sees.pairViews_of_adopts`), also when it fails or faults whenever it is asked.
-/

namespace QueryViews

variable {α ω : Type}

/-- The mode has not changed, and no pair is resolved but that of one container, and that to what
was adopted. -/
structure Reference.Adopts (ref : Reference α) (id : ContainerId)
    (adopted : OrderedMap Extent View) (sc : Scene α ω) : Prop where
  cache : sc.cache.Fits ref.assemblies
  hashes : sc.tables.hashes.Sound fun k h => ClosureHash.compute ref.schema k = .ok h
  mode : sc.tables.mode = .generatedViews
  pairs : sc.tables.pairs.Sound fun j r =>
    j = id ∧ ∃ views, r = .ok views ∧ PairViews.plain views = adopted

namespace Reference

variable {ref : Reference α} {d : Dictionary ω} {host : Host α ω} {id : ContainerId}
  {adopted : OrderedMap Extent View} {sc : Scene α ω}

/-- Searches can be relied on: nothing about what is adopted changes the cache or the hashes. -/
theorem adopts_admits : ref.Admits (ref.Adopts id adopted : Scene α ω → Prop) where
  cache h := h.cache
  hashes h := h.hashes
  world _ h := ⟨h.cache, h.hashes, h.mode, h.pairs⟩
  scanned h := ⟨fun _ hfound => by cases hfound; rfl, h.hashes, h.mode, h.pairs⟩
  reserved _ h := ⟨h.cache, h.hashes.reserve, h.mode, h.pairs⟩
  hashed _ _ h hh := ⟨h.cache, h.hashes.publish hh, h.mode, h.pairs⟩

/-- As long as the one pair is all that is resolved, only another pair or the mode can break
this. -/
theorem Sees.adopts_insensitive (hd : ref.Sees False d host) :
    d.Insensitive host (ref.Adopts id adopted) where
  scanned {s} h := ⟨fun found hfound => by
    rcases hr : (host.scan s.world).1 with f | found' <;> rw [hr] at hfound <;> cases hfound
    exact (hd.scan s.world).value_eq hr, h.hashes, h.mode, h.pairs⟩
  loaded _ h := ⟨h.cache, h.hashes, h.mode, h.pairs⟩
  generated _ h := ⟨h.cache, h.hashes, h.mode, h.pairs⟩
  cleared h := ⟨.none _, h.hashes, h.mode, h.pairs⟩
  serial _ h := ⟨h.cache, h.hashes, h.mode, h.pairs⟩
  warnings _ h := ⟨h.cache, h.hashes, h.mode, h.pairs⟩
  foreignKeys _ h := ⟨h.cache, h.hashes, h.mode, h.pairs⟩
  members _ h := ⟨h.cache, h.hashes, h.mode, h.pairs⟩
  typed _ h := ⟨h.cache, h.hashes, h.mode, h.pairs⟩
  reserved _ h := ⟨h.cache, h.hashes.reserve, h.mode, h.pairs⟩
  hashed _ _ h hh := ⟨h.cache, h.hashes.publish (hd.schema ▸ hh), h.mode, h.pairs⟩

/-- The first resolution ends with what the search finds, whatever the generator. -/
theorem Sees.resolvePair_of_adopts (hd : ref.Sees False d host)
    (hlookup : ref.lookup id = .ok adopted) (hfound : adopted.isEmpty = false)
    (hsc : ref.Adopts id adopted sc) :
    ∃ sc', ref.Adopts id adopted sc' ∧
      ∀ g, ({ d with generator := g }).resolvePair host id sc = (.ok adopted, sc') := by
  obtain ⟨hstate, houtcome⟩ := adopts_admits.preGenerated hd id sc hsc
  rcases hsearch : d.preGenerated host id sc with ⟨r, sc'⟩
  rw [hsearch] at hstate houtcome
  rcases houtcome with rfl | ⟨hfalse, -⟩
  · refine ⟨sc', hstate, fun g => ?_⟩
    rw [Dictionary.resolvePair, Act.bind_apply_ok (Act.state_apply sc), hsc.mode]
    -- the search does not look at the generator
    have hsearch : ({ d with generator := g }).preGenerated host id sc = (.ok adopted, sc') :=
      hlookup ▸ hsearch
    change (({ d with generator := g }).preGenerated host id >>= fun adopted =>
      if adopted.isEmpty then _ else pure adopted) sc = _
    rw [Act.bind_apply_ok hsearch, hfound]
    rfl
  · exact hfalse.elim

/-- Where something is adopted, the generator makes no difference to the pair. -/
theorem Sees.computePair_of_adopts (hd : ref.Sees False d host)
    (hlookup : ref.lookup id = .ok adopted) (hfound : adopted.isEmpty = false)
    (hsc : ref.Adopts id adopted sc) :
    ∃ views sc', PairViews.plain views = adopted ∧ ref.Adopts id adopted sc' ∧
      ∀ g, ({ d with generator := g }).computePair host id sc = (.ok (.ok views), sc') := by
  obtain ⟨sc', hstate, hresolve⟩ := hd.resolvePair_of_adopts hlookup hfound hsc
  refine ⟨adopted.mapIdx Published.mk sc'.tables.nextSerial, _, PairViews.plain_mapIdx _ _,
    hd.adopts_insensitive.serial (Nat.le_add_right _ adopted.size) hstate, fun g => ?_⟩
  rw [Dictionary.computePair, Act.bind_apply, Act.settled, hresolve g]
  rfl

/-- Asking for the pair gives what was adopted, now or before, whatever the generator. -/
theorem Sees.pairViews_of_adopts (hd : ref.Sees False d host)
    (hlookup : ref.lookup id = .ok adopted) (hfound : adopted.isEmpty = false)
    (hsc : ref.Adopts id adopted sc) :
    ∃ views sc', PairViews.plain views = adopted ∧ ref.Adopts id adopted sc' ∧
      ∀ g, ({ d with generator := g }).pairViews host id sc = (.ok (.ok views), sc') := by
  cases hget : sc.tables.pairs.get? id with
  | some r =>
    obtain ⟨-, views, rfl, hplain⟩ := hsc.pairs id r hget
    exact ⟨views, sc, hplain, hsc, fun g => Scene.pairs.getOrCompute_of_some _ hget⟩
  | none =>
    have hreserved : ref.Adopts id adopted (Scene.pairs.put (sc.tables.pairs.reserve id) sc) :=
      ⟨hsc.cache, hsc.hashes, hsc.mode, hsc.pairs.reserve⟩
    obtain ⟨views, sc', hplain, hstate, hcompute⟩ :=
      hd.computePair_of_adopts hlookup hfound hreserved
    have hmiss := fun g => Scene.pairs.getOrCompute_of_ok hget (hcompute g)
    have hpublished : ref.Adopts id adopted
        (Scene.pairs.put (sc'.tables.pairs.publish id (.ok views)) sc') :=
      ⟨hstate.cache, hstate.hashes, hstate.mode, hstate.pairs.publish ⟨rfl, views, rfl, hplain⟩⟩
    -- were something published in the meantime, that would be what was adopted, too
    cases hkept : sc'.tables.pairs.get? id with
    | none =>
      refine ⟨views, _, hplain, hpublished, fun g => (hmiss g).trans ?_⟩
      change (Except.ok ((sc'.tables.pairs.get? id).getD _), _) = _
      rw [hkept]
      rfl
    | some r =>
      obtain ⟨-, views', rfl, hplain'⟩ := hstate.pairs id r hkept
      refine ⟨views', _, hplain', hpublished, fun g => (hmiss g).trans ?_⟩
      change (Except.ok ((sc'.tables.pairs.get? id).getD _), _) = _
      rw [hkept]
      rfl

/-- While no other pair is asked for, a dictionary adopts on. -/
theorem Sees.perform_adopts (hd : ref.Sees False d host) (hlookup : ref.lookup id = .ok adopted)
    (hfound : adopted.isEmpty = false) {step : Step} (honly : ∀ j ∈ d.asks? step, j = id) :
    (d.perform host step).Keeps (ref.Adopts id adopted : Scene α ω → Prop) := by
  refine hd.adopts_insensitive.perform step fun j hj sc hsc => ?_
  obtain rfl := honly j (Dictionary.asks?_eq_some_iff.2 hj)
  obtain ⟨views, sc', -, hstate, hpair⟩ := hd.pairViews_of_adopts hlookup hfound hsc
  have hpair : d.pairViews host j sc = (.ok (.ok views), sc') := hpair d.generator
  rw [hpair]
  exact ⟨hstate, trivial⟩

end Reference

namespace Dictionary

variable {d : Dictionary ω} {host : Host α ω} {id : ContainerId} {sc sc' : Scene α ω} {e : Extent}
  {views : PairViews}

/-- If the pair does not depend on the generator, neither does the view of an extent of the pair. -/
theorem getView_of_pairViews (hroute : d.route e = .ok (.pair id))
    (hpair : ∀ g, ({ d with generator := g }).pairViews host id sc = (.ok (.ok views), sc'))
    (g : Generator ω) :
    ({ d with generator := g }).getView host e sc = d.viewFrom e (.ok views) sc' := by
  have hroute : ({ d with generator := g }).route e = .ok (.pair id) := hroute
  rw [getView_of_route hroute, Act.widen_bind_of_ok (hpair g)]
  rfl

/-- What is said of an extent, given the views of its pair. -/
theorem told_viewFrom {n : String} (hname : d.schema.extentName e = .ok n) :
    told Published.value (d.viewFrom e (.ok views) sc).1 =
      match (PairViews.plain views).get? e with
      | some v => .ok v
      | none => refuse (.viewNotGenerated n) := by
  have hunwrap : (Scene.unwrap (.ok views) : Act (Scene α ω) _ _) sc = (.ok views, sc) := rfl
  rw [PairViews.get?_plain, Dictionary.viewFrom, Act.bind_apply_ok hunwrap]
  cases views.get? e with
  | some v => rfl
  | none =>
    simp only
    rw [hname]
    rfl

end Dictionary

/-! ## The first pair asked for -/

/-- What is remembered if the pair of one container was the first that was asked for: the pair is
resolved to what was adopted, and before any other was asked for, the dictionary adopts. -/
structure Reference.BeganWith (ref : Reference α) (ω : Type) (id : ContainerId)
    (adopted : OrderedMap Extent View) (asked : List ContainerId) (tables : Tables) : Prop where
  adopts : (∀ j ∈ asked, j = id) → ∀ (cache : ScanCache α) (w : ω), cache.Fits ref.assemblies →
    ref.Adopts id adopted ⟨tables, cache, w⟩
  resolved : asked ≠ [] →
    ∃ views, tables.pairs.get? id = some (.ok views) ∧ PairViews.plain views = adopted

namespace Reference

variable {ref : Reference α} {d : Dictionary ω} {host : Host α ω} {id : ContainerId}
  {adopted : OrderedMap Extent View} {sc : Scene α ω} {asked : List ContainerId}

/-- If the first pair that is asked for is this one, what was adopted for it is remembered from then
on. -/
theorem Sees.perform_beganWith (hd : ref.Sees False d host) (hlookup : ref.lookup id = .ok adopted)
    (hfound : adopted.isEmpty = false) (hcache : sc.cache.Fits ref.assemblies)
    (h : ref.BeganWith ω id adopted asked sc.tables) {step : Step}
    (hfirst : ∀ j ∈ (asked ++ (d.asks? step).toList).head?, j = id) :
    ref.BeganWith ω id adopted (asked ++ (d.asks? step).toList)
      (d.perform host step sc).2.tables := by
  refine ⟨fun honly cache w hfits => ?_, fun hne => ?_⟩
  · have hsc : ref.Adopts id adopted sc :=
      h.adopts (fun j hj => honly j (List.mem_append_left _ hj)) sc.cache sc.world hcache
    have hasks : ∀ j ∈ d.asks? step, j = id := fun j hj =>
      honly j (List.mem_append_right _ (Option.mem_toList.2 hj))
    have hstate := (hd.perform_adopts hlookup hfound hasks sc hsc).1
    exact ⟨hfits, hstate.hashes, hstate.mode, hstate.pairs⟩
  · by_cases hasked : asked = []
    · subst hasked
      have hsc : ref.Adopts id adopted sc :=
        h.adopts (List.forall_mem_nil _) sc.cache sc.world hcache
      cases hasks : d.asks? step with
      | none =>
        rw [hasks] at hne
        exact absurd rfl hne
      | some j =>
        rw [hasks] at hfirst
        obtain rfl := hfirst j rfl
        obtain ⟨views, sc', hplain, -, hpair⟩ := hd.pairViews_of_adopts hlookup hfound hsc
        have hpair : d.pairViews host j sc = (.ok (.ok views), sc') := hpair d.generator
        have hget : sc'.tables.pairs.get? j = some (.ok views) := Act.get?_of_getOrCompute hpair
        have hp : d.Insensitive host fun sc => sc.tables.pairs.get? j = some (.ok views) :=
          Dictionary.insensitive_pairs fun pairs => pairs.get? j = some (.ok views)
        -- what the step does once the pair is resolved leaves it resolved
        obtain ⟨rest, hrest, hkeeps⟩ := d.exists_rest host (Dictionary.asks?_eq_some_iff.1 hasks)
        rw [hrest, Act.widen_bind_of_ok hpair]
        exact ⟨views, (hkeeps _ hp.toSteadfast _ sc' hget).1, hplain⟩
    · obtain ⟨views, hget, hplain⟩ := h.resolved hasked
      exact ⟨views, (d.keeps_resolved host id _ step sc hget).1, hplain⟩

/-- The view of an extent of the pair comes from what was adopted, and the generator is not asked
for it. -/
theorem Sees.getView_of_beganWith (hd : ref.Sees False d host)
    (hlookup : ref.lookup id = .ok adopted) (hfound : adopted.isEmpty = false)
    (hcache : sc.cache.Fits ref.assemblies) (h : ref.BeganWith ω id adopted asked sc.tables)
    {e : Extent} {n : String} (hroute : d.route e = .ok (.pair id))
    (hname : d.schema.extentName e = .ok n) :
    told Published.value (d.getView host e sc).1 =
        (match adopted.get? e with
        | some v => .ok v
        | none => refuse (.viewNotGenerated n)) ∧
      (∀ g, ({ d with generator := g }).getView host e sc = d.getView host e sc) ∧
      (∃ views, (d.getView host e sc).2.tables.pairs.get? id = some (.ok views) ∧
        PairViews.plain views = adopted) ∧
      ((∀ j ∈ asked, j = id) → (d.getView host e sc).2.tables.mode = .generatedViews) := by
  -- the first question adopts the views, and any later one finds them resolved
  have hpair : ∃ views sc', PairViews.plain views = adopted ∧
      ((∀ j ∈ asked, j = id) → ref.Adopts id adopted sc') ∧
      ∀ g, ({ d with generator := g }).pairViews host id sc = (.ok (.ok views), sc') := by
    by_cases hasked : asked = []
    · obtain ⟨views, sc', hplain, hstate, hpair⟩ := hd.pairViews_of_adopts hlookup hfound
        (h.adopts (hasked ▸ List.forall_mem_nil _) sc.cache sc.world hcache)
      exact ⟨views, sc', hplain, fun _ => hstate, hpair⟩
    · obtain ⟨views, hget, hplain⟩ := h.resolved hasked
      exact ⟨views, sc, hplain, fun honly => h.adopts honly sc.cache sc.world hcache,
        fun g => Scene.pairs.getOrCompute_of_some _ hget⟩
  obtain ⟨views, sc', rfl, hstate, hpair⟩ := hpair
  have hview := Dictionary.getView_of_pairViews hroute hpair
  have hget : sc'.tables.pairs.get? id = some (.ok views) :=
    Act.get?_of_getOrCompute (hpair d.generator)
  have hrun : d.getView host e sc = d.viewFrom e (.ok views) sc' := hview d.generator
  refine ⟨?_, fun g => (hview g).trans hrun.symm, ⟨views, ?_, rfl⟩, fun honly => ?_⟩
  · rw [hrun, Dictionary.told_viewFrom hname]
  · have hp : d.Insensitive host fun sc => sc.tables.pairs.get? id = some (.ok views) :=
      Dictionary.insensitive_pairs fun pairs => pairs.get? id = some (.ok views)
    rw [hrun]
    exact (hp.viewFrom e (.ok views) sc' hget).1
  · rw [hrun]
    exact (hd.adopts_insensitive.viewFrom e (.ok views) sc' (hstate honly)).1.mode

end Reference

end QueryViews
