import QueryViews.Proofs.Act
import QueryViews.Proofs.Dictionary.Needs

/-!
# What a dictionary keeps

The generator, the host and the world can do as they like. An invariant that no bookkeeping breaks
(`Dictionary.Insensitive`) holds on, whatever they answer and whether or not they fault:

* resolving a pair keeps it, if it survives a change of the mode (`Enduring.computePair`);
* a step keeps it, if resolving the pair that the step needs does (`Insensitive.perform`).
-/

namespace QueryViews

variable {α ω β : Type}

namespace Dictionary

/-- What `Dictionary.pairViews` computes for a pair that is not resolved yet. -/
def computePair (d : Dictionary ω) (host : Host α ω) (id : ContainerId) :
    Act (Scene α ω) Fault (Resolved PairViews) := do
  match ← (d.resolvePair host id).settled with
  | .ok views => return .ok (← Scene.issueAll views)
  | .error e => return .error (← Scene.issue e)

/-- The answer about an entity set restricted to a type, where the tables have no say in it: the
view of the user, or that there is none. -/
def settledTyped? (d : Dictionary ω) (k : TypeKey) :
    Except Fault (Option (Option (Published View))) := do
  match d.userViews.get? (.ofType k) with
  | some view => return some (some view)
  | none =>
    if (← d.schema.conceptual.model k.type).isAbstract then
      return some none
    else if d.userViews.contains (.extent (.entitySet k.entitySet)) then
      return some none
    else
      return none

/-- What `Dictionary.getViewOfType` computes for a key that is not in the table yet. -/
def computeTyped (d : Dictionary ω) (k : TypeKey) :
    Act (Scene α ω) Fault (Option (Published View)) := do
  match ← d.generateTyped k with
  | some view => return some (← Scene.issue view)
  | none => return none

/-- The view of a type is settled without the tables, or kept in them. -/
theorem getViewOfType_eq (d : Dictionary ω) (k : TypeKey) :
    (d.getViewOfType k : Act (Scene α ω) Fault _) =
      Act.ofExcept (d.settledTyped? k) >>= fun answer =>
        answer.elim (Scene.typed.getOrCompute k (d.computeTyped k)) pure := by
  rw [getViewOfType, settledTyped?]
  cases d.userViews.get? (.ofType k) with
  | some view => rfl
  | none =>
    simp only
    cases d.schema.conceptual.model k.type with
    | error f => rfl
    | ok m =>
      change (if m.isAbstract then _ else if d.userViews.contains _ then _ else _) =
        Act.ofExcept (if m.isAbstract then _ else if d.userViews.contains _ then _ else _) >>= _
      by_cases habstract : m.isAbstract
      · rw [if_pos habstract, if_pos habstract]
        rfl
      · rw [if_neg habstract, if_neg habstract]
        by_cases howned : d.userViews.contains (.extent (.entitySet k.entitySet))
        · rw [if_pos howned, if_pos howned]
          rfl
        · rw [if_neg howned, if_neg howned]
          rfl

/-- What adopting an artifact comes to, given the hash that it has and that of the mapping. -/
def judge (d : Dictionary ω) (id : ContainerId) (assembly : String) (views : OrderedMap Extent View)
    (a : Artifact) (expected : ClosureHash) :
    Option ClosureHash → Except (Failure Error) (OrderedMap Extent View)
  | none => do refuse (← d.notMapped id)
  | some live =>
    if expected ≠ live then
      refuse (staleArtifact a assembly expected live)
    else do
      match namedTexts (← d.schema.extentsByName id) a with
      | none => return views
      | some texts =>
        match addTexts views texts with
        | .ok views => return views
        | .error e => refuse e

/-- Of the state, adopting an artifact needs the hash of the mapping only. -/
theorem adopt_eq (d : Dictionary ω) (id : ContainerId) (assembly : String)
    (views : OrderedMap Extent View) {a : Artifact} {expected : ClosureHash}
    (h : ClosureHash.parse a.hash = .ok expected) :
    (d.adopt id assembly views a : Act (Scene α ω) _ _) =
      (d.closureHash id).widen >>= fun live =>
        Act.ofExcept (d.judge id assembly views a expected live) := by
  rw [adopt, h]
  refine bind_congr fun live => ?_
  cases live with
  | none => exact (Act.ofExcept_bind _ _).symm
  | some live =>
    simp only [judge]
    by_cases hne : expected ≠ live
    · rw [if_pos hne, if_pos hne]
      rfl
    · rw [if_neg hne, if_neg hne, Act.ofExcept_bind]
      refine bind_congr fun names => ?_
      cases namedTexts names a with
      | none => rfl
      | some texts =>
        simp only
        cases addTexts views texts <;> rfl

/-- An invariant that the bookkeeping of a dictionary does not break: hashes are kept, serial
numbers are given, foreign keys and members are looked up. -/
structure Steadfast (d : Dictionary ω) (P : Scene α ω → Prop) : Prop where
  serial : ∀ {s n}, s.tables.nextSerial ≤ n → P s → P { s with tables.nextSerial := n }
  foreignKeys : ∀ {s m}, s.tables.foreignKeys.Within m → P s → P { s with tables.foreignKeys := m }
  members : ∀ {s m}, s.tables.members.Within m → P s → P { s with tables.members := m }
  reserved : ∀ {s} id, P s → P { s with tables.hashes := s.tables.hashes.reserve id }
  hashed : ∀ {s} id h, P s → ClosureHash.compute d.schema id = .ok h →
    P { s with tables.hashes := s.tables.hashes.publish id h }

/-- A steadfast invariant that holds on when the cache is used, and when the host scans and loads.
It holds on while nothing is generated. -/
structure Lasting (d : Dictionary ω) (host : Host α ω) (P : Scene α ω → Prop) : Prop
    extends d.Steadfast P where
  scanned : ∀ {s}, P s →
    P { s with cache := (host.scan s.world).1.toOption, world := (host.scan s.world).2 }
  loaded : ∀ {s} assembly, P s → P { s with world := (host.load assembly s.world).2 }
  cleared : ∀ {s}, P s → P { s with cache := none }

/-- A steadfast invariant that holds on when the generator is asked, and when its warnings are
recorded. -/
structure Tolerant (d : Dictionary ω) (P : Scene α ω → Prop) : Prop extends d.Steadfast P where
  generated : ∀ {s} q, P s → P { s with world := (d.generator q s.world).2 }
  warnings : ∀ {s} ds, P s → P { s with tables.warnings := ds }

/-- A lasting invariant that holds on when the generator is asked, too. -/
structure Enduring (d : Dictionary ω) (host : Host α ω) (P : Scene α ω → Prop) : Prop
    extends d.Lasting host P, d.Tolerant P

/-- An enduring invariant that holds on when the table of the views of types grows. What can break
it is a change of the mode, or of the resolved pairs. -/
structure Insensitive (d : Dictionary ω) (host : Host α ω) (P : Scene α ω → Prop) : Prop
    extends d.Enduring host P where
  typed : ∀ {s m}, s.tables.typed.Within m → P s → P { s with tables.typed := m }

/-! ## Adopting and generating -/

section Kept

variable {d : Dictionary ω} {host : Host α ω} {P : Scene α ω → Prop} {ε : Type}

/-- A load by the host does not break what lasts. -/
theorem Lasting.load (hp : d.Lasting host P) (assembly : α) :
    (Scene.inWorld (host.load assembly) : Act (Scene α ω) _ _).Keeps P :=
  .zoom fun _ hs => hp.loaded assembly hs

/-- Giving a number breaks nothing. -/
theorem Steadfast.issue (hp : d.Steadfast P) (b : β) :
    (Scene.issue b : Act (Scene α ω) ε _).Keeps P :=
  fun _ hs => ⟨hp.serial (Nat.le_succ _) hs, trivial⟩

theorem Steadfast.issueAll {κ : Type} (hp : d.Steadfast P) (m : OrderedMap κ β) :
    (Scene.issueAll m : Act (Scene α ω) ε _).Keeps P :=
  fun _ hs => ⟨hp.serial (Nat.le_add_right _ _) hs, trivial⟩

theorem Steadfast.raise (hp : d.Steadfast P) (e : Error) :
    (Scene.raise e : Act (Scene α ω) _ β).Keeps P :=
  (hp.issue e).bind fun _ => .stop _

theorem Steadfast.unwrap (r : Resolved β) : (Scene.unwrap r : Act (Scene α ω) _ β).Keeps P := by
  cases r with
  | ok b => exact .pure b
  | error e => exact .stop _

/-- Keeping the hash of a pair breaks nothing. -/
theorem Steadfast.closureHash (hp : d.Steadfast P) (id : ContainerId) :
    (d.closureHash id : Act (Scene α ω) Fault _).Keeps P := by
  refine .getOrCompute (Q := (· = ClosureHash.compute d.schema id)) (.ofExcept rfl)
    (fun s hs => hp.reserved id hs) fun s h hs hh => hp.hashed id h hs hh.symm

/-- Adopting an artifact takes a hash and names, and breaks nothing. -/
theorem Steadfast.adopt (hp : d.Steadfast P) (id : ContainerId) (assembly : String)
    (views : OrderedMap Extent View) (a : Artifact) :
    (d.adopt id assembly views a : Act (Scene α ω) _ _).Keeps P := by
  cases h : ClosureHash.parse a.hash with
  | error e =>
    rw [Dictionary.adopt, h]
    exact .pure _
  | ok expected =>
    rw [d.adopt_eq id assembly views h]
    exact (hp.closureHash id).widen.bind fun live => .ofExcept _

/-- Loading an assembly and adopting from it breaks nothing that lasts. -/
theorem Lasting.adoptAssembly (hp : d.Lasting host P) (id : ContainerId) (pair : String)
    (views : OrderedMap Extent View) (assembly : α) :
    (d.adoptAssembly host id pair views assembly).Keeps P := by
  rw [Dictionary.adoptAssembly]
  refine (hp.load assembly).settled.widen.bind fun loaded => ?_
  cases loaded with
  | error e => exact .pure _
  | ok artifacts => exact .foldlM (hp.adopt id (host.name assembly)) _ _

theorem Lasting.candidates (hp : d.Lasting host P) :
    (Scene.inCache host.candidates : Act (Scene α ω) _ _).Keeps P := by
  intro s hs
  simp only [Scene.inCache, Act.zoom, Host.candidates]
  cases hc : s.cache with
  | some found =>
    have hsame : ({ s with cache := some found, world := s.world } : Scene α ω) = s := by
      rw [← hc]
    exact ⟨hsame ▸ hs, trivial⟩
  | none =>
    have hscanned := hp.scanned hs
    rcases hw : host.scan s.world with ⟨r, w⟩
    rw [hw] at hscanned
    cases r <;> exact ⟨hscanned, trivial⟩

/-- The search for artifacts breaks nothing that lasts. -/
theorem Lasting.preGenerated (hp : d.Lasting host P) (id : ContainerId) :
    (d.preGenerated host id).Keeps P := by
  rw [Dictionary.preGenerated]
  refine (Act.Keeps.ofExcept _).bind fun pair => ?_
  exact hp.candidates.widen.bind fun found => .foldlM (hp.adoptAssembly id pair) _ _

/-- A question to the generator breaks nothing that tolerates one. -/
theorem Tolerant.ask (hp : d.Tolerant P) (mapping : ContainerMapping)
    (operation : Operation) : (d.ask mapping operation : Act (Scene α ω) _ _).Keeps P :=
  .zoom fun _ hs => hp.generated _ hs

theorem Tolerant.recordWarnings (hp : d.Tolerant P) (made : Generated) :
    (Scene.recordWarnings made : Act (Scene α ω) ε Unit).Keeps P :=
  .modify fun _ hs => hp.warnings _ hs

theorem Tolerant.generatePair (hp : d.Tolerant P) (id : ContainerId) :
    (d.generatePair id : Act (Scene α ω) _ _).Keeps P := by
  rw [Dictionary.generatePair]
  refine (Act.Keeps.ofExcept _).bind fun pair => ?_
  refine (Act.Keeps.ofExcept _).bind fun mapping => ?_
  refine (hp.ask mapping (.pair id)).bind fun made => ?_
  by_cases he : made.hasErrors
  · rw [if_pos he]
    exact .ofExcept _
  · rw [if_neg he]
    exact (hp.recordWarnings made).bind fun _ => .ofExcept _

theorem Tolerant.generateTyped (hp : d.Tolerant P) (k : TypeKey) :
    (d.generateTyped k : Act (Scene α ω) _ _).Keeps P := by
  rw [Dictionary.generateTyped]
  cases d.schema.mapping.container? k.entitySet.container with
  | none => exact .pure _
  | some mapping =>
    refine (hp.ask mapping (.ofType k)).settled.bind fun made => ?_
    cases made with
    | error e => exact .pure _
    | ok made =>
      simp only
      by_cases he : made.hasErrors
      · rw [if_pos he]
        exact .pure _
      · rw [if_neg he]
        refine (hp.recordWarnings made).bind fun _ => ?_
        cases made.views.get? (.entitySet k.entitySet) with
        | none => exact .pure _
        | some body => exact (Act.Keeps.ofExcept _).bind fun view => .pure _

/-! ## Pairs of containers -/

/-- Resolving a pair keeps what survives a change of the mode. -/
theorem Enduring.computePair (hp : d.Enduring host P)
    (hmode : ∀ s, P s → P { s with tables.mode := .runtimeGeneration }) (id : ContainerId) :
    (d.computePair host id).Keeps P := by
  have hresolve : (d.resolvePair host id).Keeps P := by
    intro s hs
    rw [Dictionary.resolvePair, Act.bind_apply_ok (Act.state_apply s)]
    cases s.tables.mode with
    | runtimeGeneration => exact hp.generatePair id s hs
    | generatedViews =>
      refine ((hp.preGenerated id).bind fun adopted => ?_) s hs
      by_cases he : adopted.isEmpty
      · rw [if_pos he]
        exact (Act.Keeps.modify hmode).bind fun _ => hp.generatePair id
      · rw [if_neg he]
        exact .pure _
  rw [Dictionary.computePair]
  refine hresolve.settled.bind fun r => ?_
  cases r with
  | ok views => exact (hp.issueAll views).bind fun _ => .pure _
  | error e => exact (hp.issue e).bind fun _ => .pure _

/-! ## Steps -/

theorem Steadfast.foreignKeyView (hp : d.Steadfast P) (id : AssociationSetId) :
    (d.foreignKeyView id : Act (Scene α ω) _ _).Keeps P := by
  refine .getOrCompute (Q := fun _ => True) ?_
    (fun s hs => hp.foreignKeys (Memo.within_reserve _ _) hs)
    fun s r hs _ => hp.foreignKeys (Memo.within_publish _ _ _) hs
  refine Act.Keeps.bind (.ofExcept _) fun r => ?_
  rcases r with e | (_ | view)
  · exact (hp.issue e).bind fun _ => .pure _
  · exact (Act.Keeps.ofExcept _).bind fun name => (hp.issue _).bind fun _ => .pure _
  · exact (hp.issue view).bind fun _ => .pure _

theorem Steadfast.resolveMembers (hp : d.Steadfast P) (k : MembersKey) :
    (d.resolveMembers k : Act (Scene α ω) _ _).Keeps P := by
  refine .getOrCompute (Q := fun _ => True) ?_
    (fun s hs => hp.members (Memo.within_reserve _ _) hs)
    fun s r hs _ => hp.members (Memo.within_publish _ _ _) hs
  refine Act.Keeps.bind (.ofExcept _) fun r => ?_
  cases r with
  | ok members => exact (hp.issue members).bind fun _ => .pure _
  | error e => exact (hp.issue e).bind fun _ => .pure _

theorem Tolerant.computeTyped (hp : d.Tolerant P) (k : TypeKey) :
    (d.computeTyped k : Act (Scene α ω) _ _).Keeps P := by
  refine (hp.generateTyped k).bind fun view => ?_
  cases view with
  | none => exact .pure _
  | some view => exact (hp.issue view).bind fun _ => .pure _

/-- The view of a type breaks nothing, if it may be put into its table. -/
theorem Tolerant.getViewOfType (hp : d.Tolerant P)
    (htyped : ∀ {s m}, s.tables.typed.Within m → P s → P { s with tables.typed := m })
    (k : TypeKey) : (d.getViewOfType k : Act (Scene α ω) _ _).Keeps P := by
  rw [getViewOfType_eq]
  refine (Act.Keeps.ofExcept _).bind fun answer => ?_
  cases answer with
  | some answer => exact .pure _
  | none =>
    exact .getOrCompute (hp.computeTyped k) (fun s hs => htyped (Memo.within_reserve _ _) hs)
      fun s r hs _ => htyped (Memo.within_publish _ _ _) hs

/-- What `Dictionary.getView` does with the views of a pair. -/
def viewFrom (d : Dictionary ω) (e : Extent) (r : Resolved PairViews) :
    Act (Scene α ω) (Failure (Published Error)) (Published View) := do
  let views ← Scene.unwrap r
  match views.get? e with
  | some view => return view
  | none => Scene.raise (.viewNotGenerated (← d.schema.extentName e))

/-- Where the view of an extent comes from a pair, the pair is resolved first. -/
theorem getView_of_route {e : Extent} {id : ContainerId} (h : d.route e = .ok (.pair id)) :
    d.getView host e = (d.pairViews host id).widen >>= d.viewFrom e := by
  rw [Dictionary.getView, h]
  rfl

/-- What `Dictionary.exportViews` does with the views of a pair. -/
def artifactFrom (d : Dictionary ω) (id : ContainerId) (r : Resolved PairViews) :
    Act (Scene α ω) (Failure (Published Error)) Artifact := do
  let views ← Scene.unwrap r
  match ← (d.closureHash id).widen with
  | none => Scene.raise (← d.notMapped id)
  | some hash => return ⟨← d.schema.pairName id, hash.text, ← d.textsByName views⟩

/-- To export a pair, it is resolved first. -/
theorem exportViews_of_canonical {id c : ContainerId}
    (h : d.schema.canonicalContainer? (.conceptual id) = some c) :
    d.exportViews host id = (d.pairViews host c).widen >>= d.artifactFrom c := by
  rw [Dictionary.exportViews, h]
  rfl

theorem Steadfast.viewFrom (hp : d.Steadfast P) (e : Extent) (r : Resolved PairViews) :
    (d.viewFrom e r).Keeps P := by
  refine (Steadfast.unwrap r).bind fun views => ?_
  cases views.get? e with
  | some view => exact .pure _
  | none => exact (Act.Keeps.ofExcept _).bind fun name => hp.raise _

theorem Steadfast.artifactFrom (hp : d.Steadfast P) (id : ContainerId)
    (r : Resolved PairViews) : (d.artifactFrom id r).Keeps P := by
  refine (Steadfast.unwrap r).bind fun views => (hp.closureHash id).widen.bind fun hash => ?_
  cases hash with
  | none => exact (Act.Keeps.ofExcept _).bind fun e => hp.raise e
  | some hash =>
    exact (Act.Keeps.ofExcept _).bind fun pair => (Act.Keeps.ofExcept _).bind fun texts => .pure _

/-- A step that needs a pair resolves it, and what it does afterwards is bookkeeping. -/
theorem exists_rest (d : Dictionary ω) (host : Host α ω) {step : Step} {id : ContainerId}
    (h : d.Needs step id) :
    ∃ rest, d.perform host step = (d.pairViews host id).widen >>= rest ∧
      ∀ P, d.Steadfast P → ∀ r, (rest r).Keeps P := by
  cases step with
  | getView e =>
    refine ⟨fun r => d.viewFrom e r >>= fun view => pure (.view view), ?_, fun P hp r =>
      (hp.viewFrom e r).bind fun _ => .pure _⟩
    rw [Dictionary.perform, getView_of_route h.route, bind_assoc]
  | exportViews c =>
    refine ⟨fun r => d.artifactFrom id r >>= fun a => pure (.artifact a), ?_, fun P hp r =>
      (hp.artifactFrom id r).bind fun _ => .pure _⟩
    rw [Dictionary.perform, exportViews_of_canonical h.canonical, bind_assoc]
  | _ => cases h

/-- Where no pair is needed, a step for a view breaks nothing. -/
theorem Steadfast.getView (hp : d.Steadfast P) (e : Extent)
    (hquiet : ∀ id, ¬ d.Needs (.getView e) id) : (d.getView host e).Keeps P := by
  rw [Dictionary.getView]
  refine Act.Keeps.of_lookup fun route hroute => ?_
  cases route with
  | userView view => exact .pure _
  | foreignKey set => exact (hp.foreignKeyView set).widen.bind fun r => Steadfast.unwrap r
  | unmapped name => exact hp.raise _
  | pair container => exact absurd (.getView (route_eq_ok_iff.1 hroute)) (hquiet container)

/-- Where no pair is needed, an export breaks nothing. -/
theorem Steadfast.exportViews (hp : d.Steadfast P) (id : ContainerId)
    (hquiet : ∀ c, ¬ d.Needs (.exportViews id) c) : (d.exportViews host id).Keeps P := by
  have hc : d.schema.canonicalContainer? (.conceptual id) = none :=
    Option.eq_none_iff_forall_ne_some.2 fun c hc => hquiet c (.exportViews hc)
  rw [Dictionary.exportViews, hc]
  exact (Act.Keeps.ofExcept _).bind fun e => hp.raise e

/-- A step other than clearing the cache keeps an invariant if resolving the pair that it needs
does, and if making the view of a type does. -/
theorem Steadfast.perform (hp : d.Steadfast P) {step : Step} (hclear : step ≠ .clearCache)
    (hpair : ∀ id, d.Needs step id → (d.pairViews host id).Keeps P)
    (htyped : ∀ k, step = .getViewOfType k →
      (d.getViewOfType k : Act (Scene α ω) Fault _).Keeps P) :
    (d.perform host step).Keeps P := by
  by_cases hneeds : ∃ id, d.Needs step id
  · obtain ⟨id, hneeds⟩ := hneeds
    obtain ⟨rest, hrest, hkeeps⟩ := d.exists_rest host hneeds
    rw [hrest]
    exact (hpair id hneeds).widen.bind (hkeeps P hp)
  -- a step that needs no pair may still make the view of a type
  · have hquiet : ∀ id, ¬ d.Needs step id := not_exists.1 hneeds
    cases step with
    | getView e => exact (hp.getView e hquiet).bind fun _ => .pure _
    | getViewOfType k =>
      refine (htyped k rfl).widen.bind fun view => ?_
      cases view with
      | none => exact .pure _
      | some view => exact .pure _
    | members k =>
      refine Act.Keeps.bind ?_ fun _ => .pure _
      exact (hp.resolveMembers k).widen.bind fun r => Steadfast.unwrap r
    | closureHash id => exact (hp.closureHash id).widen.bind fun _ => .pure _
    | exportViews id => exact (hp.exportViews id hquiet).bind fun _ => .pure _
    | warnings => exact fun s hs => ⟨hs, trivial⟩
    | clearCache => exact absurd rfl hclear
    | config => exact .pure _

/-- The same of any step, for an invariant that survives clearing the cache. -/
theorem Lasting.perform (hp : d.Lasting host P) (step : Step)
    (hpair : ∀ id, d.Needs step id → (d.pairViews host id).Keeps P)
    (htyped : ∀ k, step = .getViewOfType k →
      (d.getViewOfType k : Act (Scene α ω) Fault _).Keeps P) :
    (d.perform host step).Keeps P := by
  by_cases hclear : step = .clearCache
  · subst hclear
    exact Act.Keeps.bind (.modify fun s hs => hp.cleared hs) fun _ => .pure _
  · exact hp.toSteadfast.perform hclear hpair htyped

/-- A step keeps an insensitive invariant if resolving the pair that it needs does. -/
theorem Insensitive.perform (hp : d.Insensitive host P) (step : Step)
    (hpair : ∀ id, d.Needs step id → (d.pairViews host id).Keeps P) :
    (d.perform host step).Keeps P :=
  hp.toLasting.perform step hpair fun k _ => hp.getViewOfType hp.typed k

end Kept

/-! ## The scan cache -/

end Dictionary

/-- The assemblies in a cache, if any, are those that a scan finds. -/
def ScanCache.Fits (cache : ScanCache α) (assemblies : List α) : Prop :=
  ∀ found, cache = some found → found = assemblies

theorem ScanCache.Fits.none (assemblies : List α) : ScanCache.Fits none assemblies := nofun

/-- If every scan that ends finds the same assemblies, no dictionary puts others into the cache. -/
theorem Dictionary.cache_fits {host : Host α ω} {assemblies : List α}
    (hscan : ∀ w found, (host.scan w).1 = .ok found → found = assemblies) (d : Dictionary ω)
    (step : Step) :
    (d.perform host step).Keeps fun sc : Scene α ω => sc.cache.Fits assemblies := by
  have hp : d.Insensitive host fun sc : Scene α ω => sc.cache.Fits assemblies :=
    { scanned := fun {s} _ found h => by
        rcases hr : (host.scan s.world).1 with f | found' <;> rw [hr] at h <;> cases h
        exact hscan s.world found hr
      loaded := fun _ h => h
      generated := fun _ h => h
      cleared := fun _ => .none _
      serial := fun _ h => h
      warnings := fun _ h => h
      foreignKeys := fun _ h => h
      members := fun _ h => h
      typed := fun _ h => h
      reserved := fun _ h => h
      hashed := fun _ _ h _ => h }
  refine hp.perform step fun id _ => ?_
  exact .getOrCompute (hp.computePair (fun _ h => h) id) (fun _ h => h) fun _ _ h _ => h

end QueryViews
