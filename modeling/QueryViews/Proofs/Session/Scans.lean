import QueryViews.Proofs.Dictionary.Looks
import QueryViews.Proofs.Session.Calls

/-!
# How often a session scans

The dictionaries of a session share what a scan found. In a run from new dictionaries over an empty
cache (`Session.Run.scans_accounted`) each step does about assemblies what `Dictionary.Accounts`
says, and so

* assemblies are known exactly if a step has sought them since the cache was cleared last;
* while it is not cleared, one scan is all there is, and every look finds what that scan found.

What was scanned and loaded is read off a log in the world (`Session.Watches`). The state of the
world is anything at all, so any host can be given one.
-/

namespace QueryViews

variable {α ω : Type}

namespace Session

/-- A log in the world of the scans and loads of the host. No generator touches it. -/
structure Watches (s : Session α ω) (log : ω → List (Visit α)) : Prop where
  scan : ∀ w, log (s.host.scan w).2 = log w ++ [.scan]
  load : ∀ a w, log (s.host.load a w).2 = log w ++ [.load a]
  generator : ∀ (place : Nat) d tables, s.dictionaries[place]? = some (d, tables) →
    ∀ q w, log (d.generator q w).2 = log w

/-- What a look finds now: what is kept in the cache, or else what a scan finds. -/
def Sees (s : Session α ω) (found : List α) : Prop :=
  (s.host.candidates (s.cache, s.world)).1 = .ok found

/-- A step at a place, after some steps earlier, seeks the shared assemblies. -/
def Seeks (s : Session α ω) (place : Nat) (earlier : List Step) (step : Step) : Prop :=
  ∃ d tables, s.dictionaries[place]? = some (d, tables) ∧ d.sharesAssemblies = true ∧
    d.Seeks earlier tables step

/-- A step at a place clears the shared cache. -/
def Clears (s : Session α ω) (place : Nat) (step : Step) : Prop :=
  step = .clearCache ∧ ∃ d tables, s.dictionaries[place]? = some (d, tables) ∧
    d.sharesAssemblies = true

/-- In a run an event has sought assemblies, and none has cleared the cache after that. -/
def Sought (s₀ : Session α ω) (events : List Event) : Prop :=
  ∃ before e after s, events = before ++ e :: after ∧ s₀.Run before s ∧
    s.Seeks e.place (stepsAt e.place before) e.step ∧
    ∀ e' ∈ after, ¬ s₀.Clears e'.place e'.step

/-- What a step at a place, after some steps earlier, does about assemblies. A dictionary that does
not share them sees none. -/
def Accounts (s : Session α ω) (log : ω → List (Visit α)) (place : Nat) (earlier : List Step)
    (step : Step) : Prop :=
  ∃ d tables, s.dictionaries[place]? = some (d, tables) ∧
    d.Accounts (s.host.seenBy d) log (if d.sharesAssemblies then [.scan] else []) earlier
      (s.sceneOf d tables) step

/-- From one session to a later one, what is kept in the cache stays, and there is a scan exactly if
the cache was empty and is not any more. -/
structure Unbroken (log : ω → List (Visit α)) (s s' : Session α ω) : Prop where
  kept : ∀ found, s.cache = some found → s'.cache = some found
  scans : ∃ visits, log s'.world = log s.world ++ visits ∧
    s.cache.isSome.toNat + visits.countP Visit.isScan = s'.cache.isSome.toNat

variable {s₀ s s' : Session α ω} {place : Nat} {asked : Step} {earlier : List Step}
  {log : ω → List (Visit α)} {events mid : List Event} {e : Event} {found : List α}
  {d : Dictionary ω} {tables : Tables}

/-! ## One step -/

/-- Clearing the cache needs no pair, and so it is no search. -/
theorem not_seeks_of_clears (h : s.Clears place asked) : ¬ s.Seeks place earlier asked := by
  rintro ⟨d, tables, -, -, id, hneeds, -⟩
  rw [h.1] at hneeds
  cases hneeds

/-- A look finds one thing. -/
theorem Sees.unique {found' : List α} (h : s.Sees found) (h' : s.Sees found') : found = found' :=
  Except.ok.inj (h.symm.trans h')

/-- Where something is kept, a look finds that. -/
theorem sees_of_cache (h : s.cache = some found) : s.Sees found := by
  rw [Sees, h]
  rfl

/-- A step seeks if the dictionary at its place does, and shares the assemblies. -/
theorem seeks_iff (hd : s.dictionaries[place]? = some (d, tables)) :
    s.Seeks place earlier asked ↔
      d.sharesAssemblies = true ∧ d.Seeks earlier tables asked := by
  refine ⟨?_, fun h => ⟨d, tables, hd, h⟩⟩
  rintro ⟨d', tables', hd', h⟩
  cases hd.symm.trans hd'
  exact h

/-- Only a dictionary that shares the assemblies clears the shared cache. -/
theorem clears_iff (hd : s.dictionaries[place]? = some (d, tables)) :
    s.Clears place asked ↔ asked = .clearCache ∧ d.sharesAssemblies = true := by
  refine and_congr_right fun _ => ⟨?_, fun h => ⟨d, tables, hd, h⟩⟩
  rintro ⟨d', tables', hd', h⟩
  cases hd.symm.trans hd'
  exact h

/-- The log of a session is one of each dictionary; one that does not share the assemblies scans
nothing. -/
theorem Watches.watched (h : s.Watches log) (hd : s.dictionaries[place]? = some (d, tables)) :
    d.Watched (s.host.seenBy d) log (if d.sharesAssemblies then [.scan] else []) := by
  have hgenerator := h.generator place d tables hd
  rw [Host.seenBy]
  by_cases hshares : d.sharesAssemblies
  · rw [if_pos hshares, if_pos hshares]
    exact ⟨h.scan, h.load, hgenerator⟩
  · rw [if_neg hshares, if_neg hshares]
    exact ⟨fun w => (List.append_nil _).symm, h.load, hgenerator⟩

/-- Every step that does not fault is accounted for. -/
theorem Watches.accounts (h : s.Watches log)
    (hanswered : ∀ d tables, s.dictionaries[e.place]? = some (d, tables) →
      d.Answered earlier tables)
    (hstep : s.step e.place e.step = some (e.outcome.mapError .error, s')) :
    s.Accounts log e.place earlier e.step := by
  obtain ⟨d, tables, hd, houtcome, -⟩ := step_cases hstep
  refine ⟨d, tables, hd, (h.watched hd).accounts (hanswered d tables hd) ?_⟩
  rw [← houtcome]
  exact e.outcome_ne_fault

/-- What a step does to the shared cache: it seeks assemblies, or clears it, or leaves it as it is.
It may load assemblies, but only the first of these can scan, and does if nothing is kept. -/
theorem Accounts.step_cases {r : Except (Failure (Published Error)) Answer}
    (h : s.Accounts log place earlier asked) (hstep : s.step place asked = some (r, s')) :
    (s.Seeks place earlier asked ∧ ∃ found, ∃ loaded : List α,
        s.Sees found ∧ s'.cache = some found ∧ log s'.world =
          log s.world ++ (if s.cache.isSome then [] else [.scan]) ++ loaded.map .load) ∨
      (s.Clears place asked ∧ s'.cache = none ∧ log s'.world = log s.world) ∨
      (¬ s.Seeks place earlier asked ∧ ¬ s.Clears place asked ∧ s'.cache = s.cache ∧
        ∃ loaded : List α, log s'.world = log s.world ++ loaded.map .load) := by
  obtain ⟨d, tables, hd, haccounts⟩ := h
  obtain ⟨d', tables', hd', -, rfl⟩ := Session.step_cases hstep
  cases hd.symm.trans hd'
  rw [seeks_iff hd, clears_iff hd]
  by_cases hshares : d.sharesAssemblies
  · have hcache : (s.sceneOf d tables).cache = s.cache := if_pos hshares
    have hcache' (scene : Scene α ω) : (s.afterStep place d scene).cache = scene.cache :=
      if_pos hshares
    have hseen : s.host.seenBy d = s.host := if_pos hshares
    rw [if_pos hshares] at haccounts
    by_cases hseeks : d.Seeks earlier tables asked
    · obtain ⟨-, found, loaded, hfound, hkept, -, hlog⟩ := haccounts.seek hseeks
      rw [hcache] at hfound hlog
      rw [hseen] at hfound
      exact .inl ⟨⟨hshares, hseeks⟩, found, loaded, hfound, (hcache' _).trans hkept, hlog⟩
    · obtain ⟨-, hlog, hsame⟩ := haccounts.still hseeks
      by_cases hclear : asked = .clearCache
      · exact .inr (.inl ⟨⟨hclear, hshares⟩, (hcache' _).trans (haccounts.clear hclear), hlog⟩)
      · refine .inr (.inr ⟨fun h => hseeks h.2, fun h => hclear h.1, ?_, [], ?_⟩)
        · exact (hcache' _).trans ((hsame hclear).trans hcache)
        · exact hlog.trans (List.append_nil _).symm
  · -- it sees no assemblies, and the shared cache is out of its reach
    refine .inr (.inr ⟨fun h => hshares h.1, fun h => hshares h.2, if_neg hshares, ?_⟩)
    rw [if_neg hshares] at haccounts
    by_cases hseeks : d.Seeks earlier tables asked
    · obtain ⟨-, found, loaded, -, -, -, hlog⟩ := haccounts.seek hseeks
      rw [ite_self, List.append_nil] at hlog
      exact ⟨loaded, hlog⟩
    · exact ⟨[], (haccounts.still hseeks).2.1.trans (List.append_nil _).symm⟩

theorem Unbroken.refl (s : Session α ω) : Unbroken log s s :=
  ⟨fun _ h => h, [], (List.append_nil _).symm, rfl⟩

/-- What was unbroken in two parts is unbroken on the whole: of two scans, the second would have
found the cache full. -/
theorem Unbroken.trans {s'' : Session α ω} (h : Unbroken log s s') (h' : Unbroken log s' s'') :
    Unbroken log s s'' := by
  obtain ⟨visits, hlog, hscans⟩ := h.scans
  obtain ⟨visits', hlog', hscans'⟩ := h'.scans
  refine ⟨fun found hfound => h'.kept found (h.kept found hfound), visits ++ visits', ?_, ?_⟩
  · rw [hlog', hlog, List.append_assoc]
  · rw [List.countP_append, ← Nat.add_assoc, hscans, hscans']

/-- Loads are no scans. -/
theorem countP_isScan_loads (loaded : List α) :
    (loaded.map Visit.load).countP Visit.isScan = 0 := by
  rw [List.countP_map]
  exact List.countP_eq_zero.2 fun _ _ h => by cases h

/-- A step that does not clear the cache leaves it or fills it, the latter by one scan. -/
theorem Accounts.unbroken {r : Except (Failure (Published Error)) Answer}
    (h : s.Accounts log place earlier asked) (hstep : s.step place asked = some (r, s'))
    (hkeeps : ¬ s.Clears place asked) : Unbroken log s s' := by
  rcases h.step_cases hstep with ⟨-, found, loaded, hsees, hfound, hlog⟩ | ⟨hclears, -⟩ |
    ⟨-, -, hsame, loaded, hlog⟩
  · refine ⟨fun found' hfound' => ?_, _, hlog.trans (List.append_assoc ..), ?_⟩
    · rw [hfound, hsees.unique (sees_of_cache hfound')]
    · rw [List.countP_append, countP_isScan_loads, hfound]
      cases s.cache <;> rfl
  · exact absurd hclears hkeeps
  · refine ⟨fun found hfound => hsame.trans hfound, _, hlog, ?_⟩
    rw [countP_isScan_loads, hsame, Nat.add_zero]

/-! ## Whole runs -/

/-- A run can go on where another one ended. -/
theorem Run.append (run : s₀.Run events s) (run' : s.Run mid s') : s₀.Run (events ++ mid) s' := by
  induction run' with
  | start => rwa [List.append_nil]
  | step _ hstep ih =>
    rw [← List.append_assoc]
    exact ih.step hstep

/-- The log stays one along a run. -/
theorem Watches.of_run (h : s₀.Watches log) (run : s₀.Run events s) : s.Watches log where
  scan := by
    rw [run.unmoved.1]
    exact h.scan
  load := by
    rw [run.unmoved.1]
    exact h.load
  generator place d tables hd := by
    obtain ⟨tables₀, hd₀⟩ := run.unmoved.2 place d tables hd
    exact h.generator place d tables₀ hd₀

/-- Which steps clear the cache does not change during a run. -/
theorem Run.clears_iff (run : s₀.Run events s) (hd : s.dictionaries[place]? = some (d, tables)) :
    s₀.Clears place asked ↔ s.Clears place asked := by
  obtain ⟨tables₀, hd₀⟩ := run.unmoved.2 place d tables hd
  rw [Session.clears_iff hd₀, Session.clears_iff hd]

/-- In a run from new dictionaries, each step does about assemblies what `Accounts` says. -/
theorem Run.accounts (run : s₀.Run events s) (hwatches : s₀.Watches log) (hfresh : s₀.Fresh)
    (hstep : s.step e.place e.step = some (e.outcome.mapError .error, s')) :
    s.Accounts log e.place (stepsAt e.place events) e.step := by
  refine (hwatches.of_run run).accounts (fun d tables hd => ?_) hstep
  obtain ⟨tables₀, hd₀⟩ := run.unmoved.2 e.place d tables hd
  obtain ⟨schema, config, generator, shares, hstart⟩ := hfresh d tables₀ (List.mem_of_getElem? hd₀)
  exact run.answered ⟨generator, tables₀, hd₀, hstart⟩ d tables hd

/-- Assemblies were sought if the last event did, or an earlier one after which nothing was
cleared. -/
theorem sought_append_iff (run : s₀.Run events s) (e : Event) :
    s₀.Sought (events ++ [e]) ↔ s.Seeks e.place (stepsAt e.place events) e.step ∨
      s₀.Sought events ∧ ¬ s₀.Clears e.place e.step := by
  constructor
  · rintro ⟨before, e', after, s₁, hevents, run', hseeks, hkept⟩
    rcases append_singleton_eq_append_cons hevents with ⟨rfl, rfl, rfl⟩ | ⟨after', rfl, hevents'⟩
    · cases run.unique run'
      exact .inl hseeks
    · rw [List.forall_mem_append, List.forall_mem_singleton] at hkept
      exact .inr ⟨⟨before, e', after', s₁, hevents', run', hseeks, hkept.1⟩, hkept.2⟩
  · rintro (hseeks | ⟨⟨before, e', after, s₁, rfl, run', hseeks, hkept⟩, hkeeps⟩)
    · exact ⟨events, e, [], s, rfl, run, hseeks, List.forall_mem_nil _⟩
    · refine ⟨before, e', after ++ [e], s₁, by simp, run', hseeks, ?_⟩
      rw [List.forall_mem_append, List.forall_mem_singleton]
      exact ⟨hkept, hkeeps⟩

/-- Assemblies are known exactly if a step has sought them since the cache was cleared last. -/
theorem Run.cache_isSome_iff (run : s₀.Run events s) (hwatches : s₀.Watches log)
    (hfresh : s₀.Fresh) (hcache : s₀.cache = none) : s.cache.isSome ↔ s₀.Sought events := by
  induction run with
  | start =>
    rw [hcache]
    refine ⟨fun h => (by cases h), ?_⟩
    rintro ⟨before, e, after, s, hevents, -⟩
    cases before <;> cases hevents
  | @step events s s' e run hstep ih =>
    obtain ⟨d, tables, hd, -⟩ := Session.step_cases hstep
    rw [sought_append_iff run, run.clears_iff hd]
    -- a step seeks assemblies, clears the cache, or leaves it alone
    rcases (run.accounts hwatches hfresh hstep).step_cases hstep with
      ⟨hseeks, found, -, -, hkept, -⟩ | ⟨hclears, hnone, -⟩ | ⟨hstill, hkeeps, hsame, -⟩
    · rw [hkept]
      exact iff_of_true rfl (.inl hseeks)
    · rw [hnone]
      refine iff_of_false (fun h => (by cases h)) ?_
      rintro (hseeks | ⟨-, hkeeps⟩)
      · exact not_seeks_of_clears hclears hseeks
      · exact hkeeps hclears
    · rw [hsame, ih, or_iff_right hstill, and_iff_left hkeeps]

/-! ## Between two clearings -/

/-- While the cache is not cleared, what is kept stays, and all looks find that. -/
theorem Run.unbroken (run : s₀.Run events s) (hwatches : s₀.Watches log) (hfresh : s₀.Fresh)
    (hmid : s.Run mid s') (hkeeps : ∀ e ∈ mid, ¬ s₀.Clears e.place e.step) :
    Unbroken log s s' ∧ ∀ before e after s₁, mid = before ++ e :: after → s.Run before s₁ →
      s₁.Seeks e.place (stepsAt e.place (events ++ before)) e.step →
      ∃ found, s₁.Sees found ∧ s'.cache = some found := by
  -- on the run in between: each of its steps keeps the cache or fills it
  induction hmid with
  | start =>
    refine ⟨.refl s, fun before e after s₁ hevents => ?_⟩
    cases before <;> cases hevents
  | @step mid s' s'' e hmid hstep ih =>
    rw [List.forall_mem_append, List.forall_mem_singleton] at hkeeps
    obtain ⟨hunbroken, hfinds⟩ := ih hkeeps.1
    have run' := run.append hmid
    have haccounts := run'.accounts hwatches hfresh hstep
    have hlast : Unbroken log s' s'' := by
      obtain ⟨d, tables, hd, -⟩ := Session.step_cases hstep
      exact haccounts.unbroken hstep ((run'.clears_iff hd).not.1 hkeeps.2)
    refine ⟨hunbroken.trans hlast, fun before e' after s₁ hevents hbefore hseeks => ?_⟩
    rcases append_singleton_eq_append_cons hevents with ⟨rfl, rfl, rfl⟩ | ⟨after', rfl, hevents'⟩
    · -- the look is the last step
      cases hmid.unique hbefore
      rcases haccounts.step_cases hstep with ⟨-, found, -, hsees, hfound, -⟩ | ⟨hclears, -⟩ |
        ⟨hstill, -⟩
      · exact ⟨found, hsees, hfound⟩
      · exact absurd hseeks (not_seeks_of_clears hclears)
      · exact absurd hseeks hstill
    · obtain ⟨found, hsees, hfound⟩ := hfinds before e' after' s₁ hevents' hbefore hseeks
      exact ⟨found, hsees, hlast.kept found hfound⟩

/-- A dictionary that generates at runtime does so to the end of a run. -/
theorem Run.runtimeGeneration (run : s₀.Run events s)
    (hd : s₀.dictionaries[place]? = some (d, tables)) (hmode : tables.mode = .runtimeGeneration) :
    ∃ tables', s.dictionaries[place]? = some (d, tables') ∧ tables'.mode = .runtimeGeneration :=
  (run.invariant_steps (C := fun _ => True) (P := fun _ t => t.mode = .runtimeGeneration) hd trivial
    hmode (fun _ _ _ _ _ => trivial) fun _ step sc _ _ h _ =>
      (d.keeps_runtimeGeneration _ step sc h).1).2

end Session

/-! ## A shop that is watched -/

namespace Shop

/-- Finds one assembly without artifacts, and keeps a log of what it does. -/
def watchedHost : Host Unit (List (Visit Unit)) where
  name := fun _ => "Views"
  scan := fun visits => (.ok [()], visits ++ [.scan])
  load := fun a visits => (.ok [], visits ++ [.load a])

/-- Two dictionaries that share what was found. -/
def watchedSession : Session Unit (List (Visit Unit)) where
  host := watchedHost
  dictionaries :=
    let d := ⟨schema "Item" "Tag", ⟨true, true, true⟩, fun _ => pure generated, true, .empty⟩
    [(d, tables), (d, tables)]
  cache := none
  world := []

theorem watched : watchedSession.Watches id where
  scan _ := rfl
  load _ _ := rfl
  generator := by
    intro place d tables hd q w
    rcases place with _ | _ | _ <;> cases hd <;> rfl

theorem watched_fresh : watchedSession.Fresh := by
  intro d tables h
  rcases List.mem_pair.1 h with h | h <;> cases h <;> exact ⟨_, _, _, true, rfl⟩

/-- Both dictionaries seek assemblies before the cache is cleared, and the second one does not
scan. -/
theorem watched_run : ∃ s, watchedSession.Run (events.take 2) s ∧
    s.world = [.scan, .load (), .load ()] ∧ s.cache = some [()] :=
  ⟨_, .step (.step .start rfl) rfl, rfl, rfl⟩

end Shop

namespace Session

variable {s₀ s : Session α ω} {log : ω → List (Visit α)} {events : List Event}

/-- **A session scans once until it is told to forget, and looks only where it has to.** Let there
be a log of the scans and loads of the host. In every run of new dictionaries over an empty cache,

* a step looks once if it is the first of its dictionary to need the views of a pair, and artifacts
  are still searched for; then it loads assemblies in the order in which they were found, each of
  them at most once. All other steps never look, and load nothing;
* assemblies are known exactly if a step has sought them since the cache was cleared last;
* from there on, until the cache is cleared, there is one scan at most, and none if assemblies are
  known; every look finds what is known in the end;
* a dictionary that generates at runtime never does anything else. -/
theorem Run.scans_accounted (hwatches : s₀.Watches log) (hfresh : s₀.Fresh)
    (hcache : s₀.cache = none) (run : s₀.Run events s) :
    (∀ (e : Event) s', s.step e.place e.step = some (e.outcome.mapError .error, s') →
      s.Accounts log e.place (stepsAt e.place events) e.step) ∧
    (s.cache.isSome ↔ s₀.Sought events) ∧
    ∀ mid s', s.Run mid s' →
      ((∀ e ∈ mid, ¬ s₀.Clears e.place e.step) →
        (∃ visits, log s'.world = log s.world ++ visits ∧
          visits.countP Visit.isScan ≤ if s.cache.isSome then 0 else 1) ∧
        ∀ before e after s₁, mid = before ++ e :: after → s.Run before s₁ →
          s₁.Seeks e.place (stepsAt e.place (events ++ before)) e.step →
          ∃ found, s₁.Sees found ∧ s'.cache = some found) ∧
      ∀ (place : Nat) d tables, s.dictionaries[place]? = some (d, tables) →
        tables.mode = .runtimeGeneration →
        ∃ tables', s'.dictionaries[place]? = some (d, tables') ∧
          tables'.mode = .runtimeGeneration := by
  refine ⟨fun e s' hstep => run.accounts hwatches hfresh hstep,
    run.cache_isSome_iff hwatches hfresh hcache, fun mid s' hmid => ⟨fun hkeeps => ?_,
    fun place d tables hd => hmid.runtimeGeneration hd⟩⟩
  obtain ⟨⟨-, visits, hlog, hscans⟩, hfinds⟩ := run.unbroken hwatches hfresh hmid hkeeps
  refine ⟨⟨visits, hlog, ?_⟩, hfinds⟩
  have hone := Bool.toNat_le s'.cache.isSome
  by_cases hknown : s.cache.isSome
  · rw [hknown, Bool.toNat_true] at hscans
    rw [if_pos hknown]
    omega
  · rw [if_neg hknown]
    omega

/-- The shop is scanned at most once before the cache is cleared, and assemblies are known then. -/
theorem shop_scans_accounted : ∃ s, Shop.watchedSession.Run (Shop.events.take 2) s ∧
    s.world.countP Visit.isScan ≤ 1 ∧ Shop.watchedSession.Sought (Shop.events.take 2) := by
  obtain ⟨s, run, -, hcache⟩ := Shop.watched_run
  obtain ⟨-, -, hscans⟩ := Run.start.scans_accounted Shop.watched Shop.watched_fresh rfl
  obtain ⟨-, hknown, -⟩ := run.scans_accounted Shop.watched Shop.watched_fresh rfl
  obtain ⟨⟨visits, hlog, hone⟩, -⟩ := (hscans _ s run).1 fun e he hclears => by
    rcases List.mem_pair.1 he with rfl | rfl <;> cases hclears.1
  refine ⟨s, run, ?_, hknown.1 (hcache ▸ rfl)⟩
  rw [show s.world = visits from hlog]
  exact hone

end Session

end QueryViews
