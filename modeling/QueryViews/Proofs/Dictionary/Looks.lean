import QueryViews.Proofs.Dictionary.Calls

/-!
# Which steps look for assemblies

Assemblies are looked for in the scan cache, and what counts there is how often: a second look finds
what the first one left behind. So that it can be counted, a step is given any other way to look
(`Dictionary.performBy`). Looking once means that the step is a look and what follows it, whatever
the way to look is (`Dictionary.LooksOnce`); never looking, that the way makes no difference
(`Dictionary.LooksNever`).

A step looks once if it **seeks** assemblies: it is the first to need the views of a pair, and
artifacts are still searched for (`Dictionary.Seeks`). Then it loads what was found, in that order
and nothing twice. All other steps never look, and apart from clearing it they leave the cache and
the host alone.
-/

namespace QueryViews

variable {σ ε κ α β γ ω : Type}

/-! ## Acts from one state on -/

namespace Act

variable {x y : Act σ ε β} {s s' : σ}

/-- Acts that go alike from two states can be followed by the same act. -/
theorem bind_congr_at (h : x s = y s') (f : β → Act σ ε γ) : (x >>= f) s = (y >>= f) s' := by
  rw [bind_apply, bind_apply, h]

theorem settled_congr_at {x y : Act σ (Failure ε) β} (h : x s = y s') :
    x.settled s = y.settled s' := by
  rw [settled, settled, h]

theorem widen_congr_at {x y : Act σ Fault β} (h : x s = y s') :
    (x.widen : Act σ (Failure ε) β) s = y.widen s' := by
  rw [widen, widen, mapFailure, mapFailure, h]

theorem widen_bind (x : Act σ Fault β) (f : β → Act σ Fault γ) :
    ((x >>= f).widen : Act σ (Failure ε) γ) = x.widen >>= fun b => (f b).widen := by
  funext s
  rw [widen, mapFailure, bind_apply, bind_apply, widen, mapFailure]
  rcases x s with ⟨e | b, s'⟩ <;> rfl

/-- An act that can only fault may be taken out of those whose errors are taken as values. -/
theorem settled_widen_bind (x : Act σ Fault β) (f : β → Act σ (Failure ε) γ) :
    (x.widen >>= f).settled = x >>= fun b => (f b).settled := by
  funext s
  rw [settled, bind_apply, bind_apply, widen, mapFailure]
  rcases x s with ⟨e | b, s'⟩ <;> rfl

end Act

namespace Shelf

variable [DecidableEq κ] {t : Shelf σ κ β} {k : κ} {s : σ}

/-- Computes the value of a key that has a slot already, and publishes it. -/
def fill (t : Shelf σ κ β) (k : κ) (compute : Act σ Fault β) : Act σ Fault β := fun s =>
  match compute s with
  | (.error f, s') => (.error f, s')
  | (.ok b, s') => (.ok (((t.table s').get? k).getD b), t.put ((t.table s').publish k b) s')

/-- What is not in a table is computed in its new slot. -/
theorem getOrCompute_of_none (compute : Act σ Fault β) (h : (t.table s).get? k = none) :
    t.getOrCompute k compute s = t.fill k compute (t.put ((t.table s).reserve k) s) := by
  rw [fill]
  rcases hc : compute (t.put ((t.table s).reserve k) s) with ⟨f | b, s'⟩
  · exact t.getOrCompute_of_error h hc
  · exact t.getOrCompute_of_ok h hc

theorem fill_congr_at {compute compute' : Act σ Fault β} (h : compute s = compute' s) :
    t.fill k compute s = t.fill k compute' s := by
  rw [fill, fill, h]

/-- What is computed last is what fills the slot. -/
theorem fill_of_bind {compute : Act σ Fault β} {x : Act σ Fault γ} {f : γ → Act σ Fault β}
    (h : compute s = (x >>= f) s) : t.fill k compute s = (x >>= fun c => t.fill k (f c)) s := by
  rw [fill, h, Act.bind_apply, Act.bind_apply]
  rcases x s with ⟨e | c, s'⟩ <;> rfl

end Shelf

namespace Dictionary

variable {d : Dictionary ω} {host : Host α ω} {id : ContainerId} {sc : Scene α ω} {step : Step}

/-! ## Another way to look -/

section By

variable (d : Dictionary ω) (host : Host α ω) (look : Act (Scene α ω) Fault (List α))

/-- What a search makes of the assemblies that were found. -/
def resolveFound (id : ContainerId) (pair : String) (found : List α) :
    Act (Scene α ω) (Failure Error) (OrderedMap Extent View) := do
  let adopted ← found.foldlM (d.adoptAssembly host id pair) .empty
  if adopted.isEmpty then
    Scene.setMode .runtimeGeneration
    d.generatePair id
  else
    return adopted

/-- `Dictionary.resolvePair` with another way to look for assemblies. -/
def resolvePairBy (id : ContainerId) :
    Act (Scene α ω) (Failure Error) (OrderedMap Extent View) := do
  match (← Act.state).tables.mode with
  | .runtimeGeneration => d.generatePair id
  | .generatedViews =>
    let pair ← d.schema.pairName id
    let found ← look.widen
    d.resolveFound host id pair found

/-- Gives numbers to the views of a pair, or to the error for them. -/
def number : Except Error (OrderedMap Extent View) → Act (Scene α ω) Fault (Resolved PairViews)
  | .ok views => return .ok (← Scene.issueAll views)
  | .error e => return .error (← Scene.issue e)

/-- `Dictionary.pairViews` with another way to look for assemblies. -/
def pairViewsBy (id : ContainerId) : Act (Scene α ω) Fault (Resolved PairViews) :=
  Scene.pairs.getOrCompute id ((d.resolvePairBy host look id).settled >>= number)

/-- `Dictionary.getView` with another way to look for assemblies. -/
def getViewBy (e : Extent) : Act (Scene α ω) (Failure (Published Error)) (Published View) := do
  match ← d.route e with
  | .userView view => return view
  | .foreignKey set => Scene.unwrap (← (d.foreignKeyView set).widen)
  | .unmapped name => Scene.raise (.viewNotGenerated name)
  | .pair container => d.viewFrom e (← (d.pairViewsBy host look container).widen)

/-- `Dictionary.exportViews` with another way to look for assemblies. -/
def exportViewsBy (id : ContainerId) : Act (Scene α ω) (Failure (Published Error)) Artifact := do
  match d.schema.canonicalContainer? (.conceptual id) with
  | none => Scene.raise (← d.notMapped id)
  | some container =>
    d.artifactFrom container (← (d.pairViewsBy host look container).widen)

/-- `Dictionary.perform` with another way to look for assemblies. -/
def performBy : Step → Act (Scene α ω) (Failure (Published Error)) Answer
  | .getView e => return .view (← d.getViewBy host look e)
  | .getViewOfType k => do
    match ← (d.getViewOfType k).widen with
    | some v => return .view v
    | none => return .noView
  | .members k => return .members (← d.interestingMembers k)
  | .closureHash id => return .closureHash (← (d.closureHash id).widen)
  | .exportViews id => return .artifact (← d.exportViewsBy host look id)
  | .warnings => return .warnings (← Act.state).tables.warnings
  | .clearCache => do
    clearCache
    return .cleared
  | .config => return .config d.config

end By

/-- Looking as the host does is how a dictionary resolves a pair. -/
theorem resolvePairBy_candidates (id : ContainerId) :
    d.resolvePairBy host (Scene.inCache host.candidates) id = d.resolvePair host id := by
  funext sc
  rw [resolvePairBy, resolvePair, Act.bind_apply_ok (Act.state_apply sc),
    Act.bind_apply_ok (Act.state_apply sc)]
  cases sc.tables.mode with
  | runtimeGeneration => rfl
  | generatedViews =>
    simp only [preGenerated, bind_assoc]
    rfl

/-- The same with the table of pairs around it. -/
theorem pairViewsBy_candidates (id : ContainerId) :
    d.pairViewsBy host (Scene.inCache host.candidates) id = d.pairViews host id := by
  rw [pairViewsBy, resolvePairBy_candidates]
  refine congrArg (Scene.pairs.getOrCompute id) (bind_congr fun r => ?_)
  cases r <;> rfl

/-- Looking in the scan cache is one way to look. -/
theorem performBy_candidates (d : Dictionary ω) (host : Host α ω) (step : Step) :
    d.performBy host (Scene.inCache host.candidates) step = d.perform host step := by
  cases step with
  | getView e =>
    rw [performBy, perform, getViewBy, Dictionary.getView]
    simp only [pairViewsBy_candidates]
    refine congrArg (· >>= _) (bind_congr fun route => ?_)
    cases route <;> rfl
  | exportViews id =>
    rw [performBy, perform, exportViewsBy, Dictionary.exportViews]
    simp only [pairViewsBy_candidates]
    cases d.schema.canonicalContainer? (.conceptual id) <;> rfl
  | getViewOfType | members | closureHash | warnings | clearCache | config => rfl

/-! ## How often a step looks -/

/-- The step is one look in the cache as it is, and what follows that. With another way to look it
would be one look too, and what follows would be the same. -/
def LooksOnce (d : Dictionary ω) (host : Host α ω) (step : Step) (sc : Scene α ω) : Prop :=
  ∃ (sc' : Scene α ω) (rest : List α → Act (Scene α ω) (Failure (Published Error)) Answer),
    sc'.cache = sc.cache ∧ sc'.world = sc.world ∧
      d.perform host step sc = ((Scene.inCache host.candidates).widen >>= rest) sc' ∧
      ∀ look, d.performBy host look step sc = (look.widen >>= rest) sc'

/-- The step does not look, so that it makes no difference how it would. -/
def LooksNever (d : Dictionary ω) (host : Host α ω) (step : Step) (sc : Scene α ω) : Prop :=
  ∀ look, d.performBy host look step sc = d.perform host step sc

/-- After some steps earlier, a step is the first to need the views of a pair, and artifacts are
still searched for. -/
def Seeks (d : Dictionary ω) (earlier : List Step) (t : Tables) (step : Step) : Prop :=
  ∃ id, d.Needs step id ∧ (∀ step ∈ earlier, ¬ d.Needs step id) ∧
    t.mode = .generatedViews

/-- A step that needs a pair resolves it, and does not look afterwards. -/
theorem exists_performBy (d : Dictionary ω) (host : Host α ω) (hneeds : d.Needs step id) :
    ∃ rest : _ → Act (Scene α ω) _ _,
      (∀ look, d.performBy host look step = (d.pairViewsBy host look id).widen >>= rest) ∧
        ∀ P, d.Steadfast P → ∀ r, (rest r).Keeps P := by
  cases step with
  | getView e =>
    refine ⟨fun r => d.viewFrom e r >>= fun view => pure (.view view), fun look => ?_,
      fun P hp r => (hp.viewFrom e r).bind fun _ => .pure _⟩
    rw [performBy, getViewBy, hneeds.route]
    change ((d.pairViewsBy host look id).widen >>= d.viewFrom e) >>= _ = _
    rw [bind_assoc]
  | exportViews c =>
    refine ⟨fun r => d.artifactFrom id r >>= fun a => pure (.artifact a), fun look => ?_,
      fun P hp r => (hp.artifactFrom id r).bind fun _ => .pure _⟩
    rw [performBy, exportViewsBy, hneeds.canonical]
    change ((d.pairViewsBy host look id).widen >>= d.artifactFrom id) >>= _ = _
    rw [bind_assoc]
  | _ => cases hneeds

/-- A step that needs no pair does not look. -/
theorem looksNever_of_not_needs (hquiet : ∀ id, ¬ d.Needs step id) :
    d.LooksNever host step sc := by
  intro look
  cases step with
  | getView e =>
    rw [performBy, perform, getViewBy, Dictionary.getView]
    cases hroute : d.route e with
    | error f => rfl
    | ok route =>
      cases route with
      | pair container => exact absurd (.getView (route_eq_ok_iff.1 hroute)) (hquiet container)
      | userView | foreignKey | unmapped => rfl
  | exportViews c =>
    have hcanonical : d.schema.canonicalContainer? (.conceptual c) = none :=
      Option.eq_none_iff_forall_ne_some.2 fun id hid => hquiet id (.exportViews hid)
    rw [performBy, perform, exportViewsBy, Dictionary.exportViews, hcanonical]
  | getViewOfType | members | closureHash | warnings | clearCache | config => rfl

/-! ## Pairs -/

theorem Steadfast.number {P : Scene α ω → Prop} (hp : d.Steadfast P)
    (r : Except Error (OrderedMap Extent View)) :
    (number r : Act (Scene α ω) Fault _).Keeps P := by
  cases r with
  | ok views => exact (hp.issueAll views).bind fun _ => .pure _
  | error e => exact (hp.issue e).bind fun _ => .pure _

/-- Where views are generated there is no look. -/
theorem resolvePairBy_of_runtimeGeneration (look : Act (Scene α ω) Fault (List α))
    (hmode : sc.tables.mode = .runtimeGeneration) :
    d.resolvePairBy host look id sc = d.generatePair id sc := by
  rw [resolvePairBy, Act.bind_apply_ok (Act.state_apply _), hmode]

/-- Where artifacts are searched for, the look comes first. -/
theorem resolvePairBy_of_pairName {pair : String} (look : Act (Scene α ω) Fault (List α))
    (hmode : sc.tables.mode = .generatedViews) (hpair : d.schema.pairName id = .ok pair) :
    d.resolvePairBy host look id sc = (look.widen >>= d.resolveFound host id pair) sc := by
  rw [resolvePairBy, Act.bind_apply_ok (Act.state_apply _), hmode, hpair]
  rfl

/-- A pair that has no name faults before any look. -/
theorem resolvePairBy_of_fault {f : Fault} (look : Act (Scene α ω) Fault (List α))
    (hmode : sc.tables.mode = .generatedViews) (hpair : d.schema.pairName id = .error f) :
    d.resolvePairBy host look id sc = (.error (.fault f), sc) := by
  rw [resolvePairBy, Act.bind_apply_ok (Act.state_apply _), hmode, hpair]
  rfl

/-- The views of a pair, where artifacts are not searched for. -/
def madeViews (d : Dictionary ω) (id : ContainerId) : Act (Scene α ω) Fault (Resolved PairViews) :=
  Scene.pairs.getOrCompute id ((d.generatePair id).settled >>= number)

/-- A pair that is resolved already, or for which artifacts are not searched for. -/
theorem pairViewsBy_of_still (look : Act (Scene α ω) Fault (List α))
    (hstill : sc.tables.pairs.get? id = none → sc.tables.mode = .runtimeGeneration) :
    d.pairViewsBy host look id sc = d.madeViews id sc := by
  rw [pairViewsBy, madeViews]
  cases hpair : sc.tables.pairs.get? id with
  | some r => rw [Shelf.getOrCompute_of_some _ _ hpair, Shelf.getOrCompute_of_some _ _ hpair]
  | none =>
    rw [Shelf.getOrCompute_of_none _ hpair, Shelf.getOrCompute_of_none _ hpair]
    have hmade : d.resolvePairBy host look id (Scene.pairs.put (sc.tables.pairs.reserve id) sc) =
      _ := resolvePairBy_of_runtimeGeneration look (hstill hpair)
    exact Shelf.fill_congr_at (Act.bind_congr_at (Act.settled_congr_at hmade) _)

/-- What is put into the tables for a pair, once assemblies were found. -/
def foundViews (d : Dictionary ω) (host : Host α ω) (id : ContainerId) (pair : String)
    (found : List α) : Act (Scene α ω) Fault (Resolved PairViews) :=
  Scene.pairs.fill id ((d.resolveFound host id pair found).settled >>= number)

/-- A pair that is searched for: one look comes first. -/
theorem pairViewsBy_of_search {pair : String} (look : Act (Scene α ω) Fault (List α))
    (hnone : sc.tables.pairs.get? id = none) (hmode : sc.tables.mode = .generatedViews)
    (hpair : d.schema.pairName id = .ok pair) :
    d.pairViewsBy host look id sc = (look >>= d.foundViews host id pair)
      (Scene.pairs.put (sc.tables.pairs.reserve id) sc) := by
  rw [pairViewsBy, Shelf.getOrCompute_of_none _ hnone]
  refine Shelf.fill_of_bind ?_
  have hresolve : d.resolvePairBy host look id (Scene.pairs.put (sc.tables.pairs.reserve id) sc) =
    _ := resolvePairBy_of_pairName look hmode hpair
  refine (Act.bind_congr_at (Act.settled_congr_at hresolve) _).trans ?_
  rw [Act.settled_widen_bind, bind_assoc]
  rfl

/-- A pair that was searched for has a name. -/
theorem exists_pairName {look : Act (Scene α ω) Fault (List α)} {r : Resolved PairViews}
    {sc' : Scene α ω} (hnone : sc.tables.pairs.get? id = none)
    (hmode : sc.tables.mode = .generatedViews)
    (hrun : d.pairViewsBy host look id sc = (.ok r, sc')) :
    ∃ pair, d.schema.pairName id = .ok pair := by
  cases hpair : d.schema.pairName id with
  | ok pair => exact ⟨pair, rfl⟩
  | error f =>
    let reserved := Scene.pairs.put (sc.tables.pairs.reserve id) sc
    have hresolve : d.resolvePairBy host look id reserved = _ :=
      resolvePairBy_of_fault look hmode hpair
    have hcompute : ((d.resolvePairBy host look id).settled >>= number) reserved =
        (.error f, reserved) := by
      rw [Act.bind_apply, Act.settled, hresolve]
    rw [pairViewsBy, Shelf.getOrCompute_of_error _ hnone hcompute] at hrun
    cases hrun

end Dictionary

/-! ## What the host is asked to do -/

/-- What a host is asked to do. -/
inductive Visit (α : Type)
  | scan
  | load (assembly : α)

/-- Whether the host is asked for a scan. -/
def Visit.isScan : Visit α → Bool
  | .scan => true
  | .load _ => false

/-- A scan that ends well is kept. -/
theorem Host.candidates_of_ok {host : Host α ω} {w w' : ω} {found : List α}
    (h : host.scan w = (.ok found, w')) :
    host.candidates (none, w) = (.ok found, some found, w') := by
  simp only [Host.candidates, h]

/-- A scan that faults is not kept. -/
theorem Host.candidates_of_error {host : Host α ω} {w w' : ω} {f : Fault}
    (h : host.scan w = (.error f, w')) : host.candidates (none, w) = (.error f, none, w') := by
  simp only [Host.candidates, h]

section Loads

variable {log : ω → List (Visit α)} {found : List α} {x : Act (Scene α ω) ε β}

/-- However it ends, the act leaves the cache alone, and of some assemblies it loads the first ones,
in order. -/
def Act.Loads (log : ω → List (Visit α)) (found : List α) (x : Act (Scene α ω) ε β) : Prop :=
  ∀ sc, (x sc).2.cache = sc.cache ∧ ∃ loaded, loaded <+: found ∧
    log (x sc).2.world = log sc.world ++ loaded.map .load

/-- What follows may not use the cache nor load anything. -/
theorem Act.Loads.bind {f : β → Act (Scene α ω) ε γ} (hx : x.Loads log found)
    (hf : ∀ b cache l, (f b).Keeps fun sc => sc.cache = cache ∧ log sc.world = l) :
    (x >>= f).Loads log found := by
  intro sc
  obtain ⟨hcache, loaded, hprefix, hlog⟩ := hx sc
  rw [Act.bind_apply]
  rcases hrun : x sc with ⟨e | b, sc'⟩ <;> rw [hrun] at hcache hlog
  · exact ⟨hcache, loaded, hprefix, hlog⟩
  · obtain ⟨⟨hcache', hlog'⟩, -⟩ := hf b sc'.cache (log sc'.world) sc' ⟨rfl, rfl⟩
    exact ⟨hcache'.trans hcache, loaded, hprefix, hlog'.trans hlog⟩

theorem Act.Loads.settled {x : Act (Scene α ω) (Failure ε) β} (hx : x.Loads log found) :
    x.settled.Loads log found := by
  intro sc
  have hx := hx sc
  rw [Act.settled]
  rcases hrun : x sc with ⟨(e | f) | b, sc'⟩ <;> rw [hrun] at hx <;> exact hx

theorem Act.Loads.widen {x : Act (Scene α ω) Fault β} (hx : x.Loads log found) :
    (x.widen : Act (Scene α ω) (Failure ε) β).Loads log found := by
  intro sc
  have hx := hx sc
  rw [Act.widen, Act.mapFailure]
  rcases hrun : x sc with ⟨f | b, sc'⟩ <;> rw [hrun] at hx <;> exact hx

/-- Assemblies that are loaded one after the other are the first ones, even if one of them is the
last that is tried. -/
theorem Act.Loads.foldlM {f : β → α → Act (Scene α ω) ε β}
    (hf : ∀ b a sc, (f b a sc).2.cache = sc.cache ∧
      log (f b a sc).2.world = log sc.world ++ [.load a]) (found : List α) (b : β) :
    (found.foldlM f b).Loads log found := by
  induction found generalizing b with
  | nil => exact fun sc => ⟨rfl, [], List.nil_prefix, (List.append_nil _).symm⟩
  | cons a rest ih =>
    intro sc
    obtain ⟨hcache, hlog⟩ := hf b a sc
    rw [List.foldlM_cons, Act.bind_apply]
    rcases hrun : f b a sc with ⟨e | b', sc'⟩ <;> rw [hrun] at hcache hlog
    · exact ⟨hcache, [a], List.cons_prefix_cons.2 ⟨rfl, List.nil_prefix⟩, hlog⟩
    · obtain ⟨hcache', loaded, hprefix, hlog'⟩ := ih b' sc'
      refine ⟨hcache'.trans hcache, a :: loaded, List.cons_prefix_cons.2 ⟨rfl, hprefix⟩, ?_⟩
      rw [hlog', hlog, List.append_assoc, List.map_cons, List.singleton_append]

end Loads

namespace Dictionary

variable {d : Dictionary ω} {host : Host α ω} {id : ContainerId} {sc : Scene α ω} {step : Step}
  {earlier : List Step} {log : ω → List (Visit α)} {scans : List (Visit α)} {found : List α}

/-- A log in the world of what a host is asked to do: a scan adds something to it, a load adds the
assembly, and the generator leaves it alone. -/
structure Watched (d : Dictionary ω) (host : Host α ω) (log : ω → List (Visit α))
    (scans : List (Visit α)) : Prop where
  scan : ∀ w, log (host.scan w).2 = log w ++ scans
  load : ∀ a w, log (host.load a w).2 = log w ++ [.load a]
  generator : ∀ q w, log (d.generator q w).2 = log w

variable (h : d.Watched host log scans)

include h

/-- The generator and the bookkeeping leave the cache and the log alone. -/
theorem Watched.tolerant (cache : ScanCache α) (l : List (Visit α)) :
    d.Tolerant fun sc : Scene α ω => sc.cache = cache ∧ log sc.world = l where
  serial _ h := h
  warnings _ h := h
  foreignKeys _ h := h
  members _ h := h
  reserved _ h := h
  hashed _ _ h _ := h
  generated q hs := ⟨hs.1, (h.generator q _).trans hs.2⟩

/-- A look finds what is kept, or else scans, and what it found is kept. -/
theorem Watched.look {sc' : Scene α ω}
    (hlook : Scene.inCache host.candidates sc = (.ok found, sc')) :
    (host.candidates (sc.cache, sc.world)).1 = .ok found ∧ sc'.cache = some found ∧
      log sc'.world = log sc.world ++ if sc.cache.isSome then [] else scans := by
  obtain ⟨tables, cache, w⟩ := sc
  cases cache with
  | some kept =>
    cases hlook
    exact ⟨rfl, rfl, (List.append_nil _).symm⟩
  | none =>
    have hscan := h.scan w
    rw [Scene.inCache, Act.zoom] at hlook
    rcases hrun : host.scan w with ⟨f | found', w'⟩ <;> rw [hrun] at hscan
    · rw [Host.candidates_of_error hrun] at hlook
      cases hlook
    · rw [Host.candidates_of_ok hrun] at hlook
      cases hlook
      exact ⟨congrArg Prod.fst (Host.candidates_of_ok hrun), rfl, hscan⟩

/-- To adopt from an assembly is to load it once. -/
theorem Watched.adoptAssembly (id : ContainerId) (pair : String) (views : OrderedMap Extent View)
    (a : α) (sc : Scene α ω) : (d.adoptAssembly host id pair views a sc).2.cache = sc.cache ∧
      log (d.adoptAssembly host id pair views a sc).2.world = log sc.world ++ [.load a] := by
  have hload := h.load a sc.world
  have hp := (h.tolerant sc.cache (log sc.world ++ [.load a])).toSteadfast
  rw [Dictionary.adoptAssembly, Act.bind_apply, Act.widen, Act.mapFailure, Act.settled,
    Scene.inWorld, Act.zoom]
  rcases hrun : host.load a sc.world with ⟨(f | e) | artifacts, w⟩ <;> rw [hrun] at hload
  · exact ⟨rfl, hload⟩
  · exact ⟨rfl, hload⟩
  · have hadopted : ((artifacts.filter (·.pair = pair)).foldlM (d.adopt id (host.name a))
      views).Keeps _ := .foldlM (hp.adopt id (host.name a)) _ _
    exact (hadopted { sc with world := w } ⟨rfl, hload⟩).1

/-- Behind a look, some of the assemblies found are loaded, the first ones in their order. -/
theorem Watched.foundViews (id : ContainerId) (pair : String) (found : List α) :
    (d.foundViews host id pair found).Loads log found := by
  have hresolve : (d.resolveFound host id pair found).Loads log found := by
    refine (Act.Loads.foldlM (h.adoptAssembly id pair) found .empty).bind fun adopted cache l => ?_
    have hmode : (Scene.setMode .runtimeGeneration : Act (Scene α ω) (Failure Error) Unit).Keeps
      fun sc => sc.cache = cache ∧ log sc.world = l := .modify fun _ hs => hs
    by_cases he : adopted.isEmpty
    · rw [if_pos he]
      exact hmode.bind fun _ => (h.tolerant cache l).generatePair id
    · rw [if_neg he]
      exact .pure _
  have hnumber := hresolve.settled.bind fun r cache l => (h.tolerant cache l).number r
  intro sc
  have hsc := hnumber sc
  rw [Dictionary.foundViews, Shelf.fill]
  rcases hrun : ((d.resolveFound host id pair found).settled >>= number) sc with ⟨f | r, sc'⟩ <;>
    rw [hrun] at hsc <;> exact hsc

/-- Where artifacts are not searched for, the host is not asked at all. -/
theorem Watched.madeViews (id : ContainerId) (cache : ScanCache α) (l : List (Visit α)) :
    (d.madeViews id).Keeps fun sc : Scene α ω => sc.cache = cache ∧ log sc.world = l := by
  have hmade := ((h.tolerant cache l).generatePair id).settled.bind fun r =>
    (h.tolerant cache l).number r
  exact .getOrCompute hmade (fun _ hs => hs) fun _ _ hs _ => hs

/-! ## Steps -/

/-- A step that seeks assemblies looks once. It finds what is kept, or else scans, and then loads
them in the order in which they were found, each at most once. -/
theorem Watched.perform_seek (hanswered : d.Answered earlier sc.tables)
    (hseeks : d.Seeks earlier sc.tables step)
    (hquiet : ∀ f, (d.perform host step sc).1 ≠ .error (.fault f)) :
    d.LooksOnce host step sc ∧ ∃ found loaded,
      (host.candidates (sc.cache, sc.world)).1 = .ok found ∧
        (d.perform host step sc).2.cache = some found ∧ loaded <+: found ∧
        log (d.perform host step sc).2.world =
          log sc.world ++ (if sc.cache.isSome then [] else scans) ++ loaded.map .load := by
  obtain ⟨id, hneeds, hfirst, hmode⟩ := hseeks
  have hnone := (hanswered.pairs id).2 hfirst
  obtain ⟨rest, hrest, hkeeps⟩ := d.exists_performBy host hneeds
  obtain ⟨pair, hpair⟩ : ∃ pair, d.schema.pairName id = .ok pair := by
    rw [← performBy_candidates, hrest] at hquiet
    obtain ⟨r, sc', hrun⟩ := Act.exists_ok_of_widen_bind hquiet
    exact exists_pairName hnone hmode hrun
  -- the step is the look, and after it the loading and what the step does with the views
  have hlooks (look) : d.performBy host look step sc = (look.widen >>= fun found =>
      (d.foundViews host id pair found).widen >>= rest)
        (Scene.pairs.put (sc.tables.pairs.reserve id) sc) := by
    rw [hrest, Act.bind_congr_at
      (Act.widen_congr_at (pairViewsBy_of_search look hnone hmode hpair)), Act.widen_bind,
      bind_assoc]
  have hperform := (congrFun (d.performBy_candidates host step) sc).symm.trans (hlooks _)
  refine ⟨⟨Scene.pairs.put (sc.tables.pairs.reserve id) sc, _, rfl, rfl, hperform, hlooks⟩, ?_⟩
  rw [hperform] at hquiet ⊢
  obtain ⟨found, sc', hlook⟩ := Act.exists_ok_of_widen_bind hquiet
  rw [Act.widen_bind_of_ok hlook]
  obtain ⟨hfound, hcache, hlog⟩ := h.look hlook
  -- behind the look the kept assemblies do not change any more
  have hloads : ((d.foundViews host id pair found).widen >>= rest).Loads log found :=
    (h.foundViews id pair found).widen.bind fun r cache l =>
      hkeeps _ (h.tolerant cache l).toSteadfast r
  obtain ⟨hcache', loaded, hprefix, hlog'⟩ := hloads sc'
  exact ⟨found, loaded, hfound, hcache'.trans hcache, hprefix, by rw [hlog', hlog]; rfl⟩

/-- A step that seeks no assemblies does not look either, and leaves the host alone. Unless it
clears the cache, it leaves that alone too. -/
theorem Watched.perform_still (hanswered : d.Answered earlier sc.tables)
    (hstill : ¬ d.Seeks earlier sc.tables step) :
    d.LooksNever host step sc ∧ log (d.perform host step sc).2.world = log sc.world ∧
      (step ≠ .clearCache → (d.perform host step sc).2.cache = sc.cache) := by
  have hkept := h.tolerant sc.cache (log sc.world)
  by_cases hneeds : ∃ id, d.Needs step id
  · obtain ⟨id, hneeds⟩ := hneeds
    obtain ⟨rest, hrest, hkeeps⟩ := d.exists_performBy host hneeds
    -- the pair is resolved already, or artifacts are not searched for any more
    have hmade (look) : d.performBy host look step sc = ((d.madeViews id).widen >>= rest) sc := by
      rw [hrest]
      refine Act.bind_congr_at (Act.widen_congr_at (pairViewsBy_of_still look fun hnone => ?_)) _
      cases hmode : sc.tables.mode with
      | runtimeGeneration => rfl
      | generatedViews => exact absurd ⟨id, hneeds, (hanswered.pairs id).1 hnone, hmode⟩ hstill
    have hperform : d.perform host step sc = ((d.madeViews id).widen >>= rest) sc := by
      rw [← performBy_candidates, hmade]
    have hkeeps : ((d.madeViews id).widen >>= rest).Keeps _ :=
      (h.madeViews id sc.cache (log sc.world)).widen.bind (hkeeps _ hkept.toSteadfast)
    obtain ⟨⟨hcache, hlog⟩, -⟩ := hkeeps sc ⟨rfl, rfl⟩
    rw [hperform]
    exact ⟨fun look => (hmade look).trans hperform.symm, hlog, fun _ => hcache⟩
  · have hquiet : ∀ id, ¬ d.Needs step id := not_exists.1 hneeds
    refine ⟨looksNever_of_not_needs hquiet, ?_⟩
    by_cases hclear : step = .clearCache
    · subst hclear
      exact ⟨rfl, fun hne => absurd rfl hne⟩
    · have hperform : (d.perform host step).Keeps _ :=
        hkept.perform hclear (fun id hid => absurd hid (hquiet id))
          fun k _ => hkept.getViewOfType (fun _ hs => hs) k
      obtain ⟨⟨hcache, hlog⟩, -⟩ := hperform sc ⟨rfl, rfl⟩
      exact ⟨hlog, fun _ => hcache⟩

omit h

/-- A dictionary that generates at runtime does so ever after. -/
theorem keeps_runtimeGeneration (d : Dictionary ω) (host : Host α ω) (step : Step) :
    (d.perform host step).Keeps fun sc : Scene α ω => sc.tables.mode = .runtimeGeneration := by
  have hp : d.Insensitive host fun sc => sc.tables.mode = .runtimeGeneration :=
    { scanned := fun h => h
      loaded := fun _ h => h
      generated := fun _ h => h
      cleared := fun h => h
      serial := fun _ h => h
      warnings := fun _ h => h
      foreignKeys := fun _ h => h
      members := fun _ h => h
      typed := fun _ h => h
      reserved := fun _ h => h
      hashed := fun _ _ h _ => h }
  refine hp.perform step fun id _ => ?_
  exact .getOrCompute (hp.computePair (fun _ _ => rfl) id) (fun _ h => h) fun _ _ h _ => h

/-- What a step does about assemblies, after some steps earlier. -/
structure Accounts (d : Dictionary ω) (host : Host α ω) (log : ω → List (Visit α))
    (scans : List (Visit α)) (earlier : List Step) (sc : Scene α ω) (step : Step) : Prop where
  /-- If it seeks them, it looks once, loads them in the order in which they were found, each at
  most once, and keeps what was found. -/
  seek : d.Seeks earlier sc.tables step → d.LooksOnce host step sc ∧ ∃ found loaded,
    (host.candidates (sc.cache, sc.world)).1 = .ok found ∧
      (d.perform host step sc).2.cache = some found ∧ loaded <+: found ∧
      log (d.perform host step sc).2.world =
        log sc.world ++ (if sc.cache.isSome then [] else scans) ++ loaded.map .load
  /-- If it does not, it never looks, and leaves the host alone. -/
  still : ¬ d.Seeks earlier sc.tables step → d.LooksNever host step sc ∧
    log (d.perform host step sc).2.world = log sc.world ∧
      (step ≠ .clearCache → (d.perform host step sc).2.cache = sc.cache)
  clear : step = .clearCache → (d.perform host step sc).2.cache = none

/-- A step that does not fault is accounted for, whatever it is. -/
theorem Watched.accounts (h : d.Watched host log scans) (hanswered : d.Answered earlier sc.tables)
    (hquiet : ∀ f, (d.perform host step sc).1 ≠ .error (.fault f)) :
    d.Accounts host log scans earlier sc step where
  seek hseeks := h.perform_seek hanswered hseeks hquiet
  still hstill := h.perform_still hanswered hstill
  clear := by
    rintro rfl
    rfl

end Dictionary

end QueryViews
