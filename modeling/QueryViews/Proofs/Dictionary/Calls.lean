import QueryViews.Proofs.Dictionary.Holdings
import QueryViews.Proofs.Dictionary.Published

/-!
# What a step asks the generator

A log in the world, to which the generator of a dictionary adds whatever it is asked for and which
nothing else touches (`Dictionary.Logged`), tells what a step asked for. Unless the step faults,
that is settled by the tables before it (`Dictionary.Logged.perform`):

* **a pair** — the generator is asked for a pair that is not resolved yet, in the mode in which it
  makes every view, or when a search for artifacts ends well and finds nothing;
* **a type** — it is asked for the view of a type that is not in the table yet, where neither the
  user nor the schema settles the answer and the container is mapped.

A search does not look at what was resolved (`Dictionary.preGenerated_oblivious`), so it makes no
difference that the pair has its slot by the time it is searched for.
-/

namespace QueryViews

variable {σ τ ε α ω β γ δ : Type}

namespace Act

/-! ## Acts that add to a log -/

section Adds

variable {log : σ → List β} {l : List β}

/-- Unless the act faults, it adds this to a log. -/
def Adds [Faulting ε] (log : σ → List β) (x : Act σ ε γ) (l : List β) : Prop :=
  ∀ s, (∀ f, (x s).1 ≠ .error (Faulting.fault f)) → log (x s).2 = log s ++ l

/-- An act that keeps every log adds nothing. -/
theorem Adds.of_keeps [Faulting ε] {x : Act σ ε γ} (h : ∀ l, x.Keeps fun s => log s = l) :
    x.Adds log [] := by
  intro s _
  rw [List.append_nil]
  exact (h _ s rfl).1

/-- Behind an act that adds all there is, nothing may be added. -/
theorem Adds.bind [Faulting ε] {x : Act σ ε γ} {f : γ → Act σ ε δ} (hx : x.Adds log l)
    (hf : ∀ a, (f a).Adds log []) : (x >>= f).Adds log l := by
  intro s hquiet
  have hx := hx s
  rw [bind_apply] at hquiet ⊢
  rcases hxs : x s with ⟨e | a, s'⟩ <;> rw [hxs] at hquiet hx
  · exact hx fun f h => hquiet f (congrArg _ (Except.error.inj h))
  · have hfa := hf a s' hquiet
    rw [List.append_nil] at hfa
    exact hfa.trans (hx fun f => ok_ne_fault a f)

/-- What follows a look-up adds all that is added. -/
theorem Adds.after_lookup {ε : Type} (r : Except Fault γ) {f : γ → Act σ (Failure ε) δ}
    (hf : ∀ a, (f a).Adds log l) :
    (Act.ofExcept (monadLift r : Except (Failure ε) γ) >>= f).Adds log l := by
  cases r with
  | ok a => exact hf a
  | error g => exact fun s hquiet => absurd rfl (hquiet g)

/-- Errors taken as values add nothing. -/
theorem Adds.settled {ε : Type} {x : Act σ (Failure ε) γ} (hx : x.Adds log l) :
    x.settled.Adds log l := by
  intro s hquiet
  have hx := hx s
  rw [Act.settled] at hquiet ⊢
  rcases hxs : x s with ⟨(f | e) | a, s'⟩ <;> rw [hxs] at hquiet hx
  · exact absurd rfl (hquiet f)
  · exact hx fun f h => by cases h
  · exact hx fun f => ok_ne_fault a f

end Adds

/-! ## Acts that do not look at a part of the state -/

section Oblivious

variable {f : σ → σ}

/-- It makes no difference to the act whether a part of the state is changed before or after. -/
def Oblivious (f : σ → σ) (x : Act σ ε γ) : Prop := ∀ s, x (f s) = ((x s).1, f (x s).2)

theorem Oblivious.pure (a : γ) : (Pure.pure a : Act σ ε γ).Oblivious f := fun _ => rfl

theorem Oblivious.ofExcept (r : Except ε γ) : (Act.ofExcept r : Act σ ε γ).Oblivious f := by
  cases r <;> exact fun _ => rfl

/-- A sequence does not mind if none of its acts do. -/
theorem Oblivious.bind {x : Act σ ε γ} {g : γ → Act σ ε δ} (hx : x.Oblivious f)
    (hg : ∀ a, (g a).Oblivious f) : (x >>= g).Oblivious f := by
  intro s
  rw [bind_apply, bind_apply, hx s]
  rcases x s with ⟨e | a, s'⟩
  · rfl
  · exact hg a s'

theorem Oblivious.widen {ε : Type} {x : Act σ Fault γ} (hx : x.Oblivious f) :
    (x.widen : Act σ (Failure ε) γ).Oblivious f := by
  intro s
  rw [Act.widen, mapFailure, mapFailure, hx s]
  rcases x s with ⟨e | a, s'⟩ <;> rfl

theorem Oblivious.settled {ε : Type} {x : Act σ (Failure ε) γ} (hx : x.Oblivious f) :
    x.settled.Oblivious f := by
  intro s
  rw [Act.settled, Act.settled, hx s]
  rcases x s with ⟨(e | g) | a, s'⟩ <;> rfl

/-- An act on a part of the state does not mind a change outside that part. -/
theorem Oblivious.zoom {get : σ → τ} {put : τ → σ → σ} {x : Act τ ε γ}
    (hget : ∀ s, get (f s) = get s) (hput : ∀ t s, put t (f s) = f (put t s)) :
    (x.zoom get put).Oblivious f := by
  intro s
  rw [Act.zoom, Act.zoom, hget]
  exact Prod.ext rfl (hput _ s)

/-- A walk through a list does not mind if none of its steps do. -/
theorem Oblivious.foldlM {g : δ → γ → Act σ ε δ} (hg : ∀ b a, (g b a).Oblivious f) (l : List γ)
    (b : δ) : (l.foldlM g b).Oblivious f := by
  induction l generalizing b with
  | nil => exact .pure b
  | cons a l ih =>
    rw [List.foldlM_cons]
    exact (hg b a).bind ih

/-- A table does not mind a change that leaves it alone, if what it computes does not. -/
theorem Oblivious.getOrCompute {κ : Type} [DecidableEq κ] {t : Shelf σ κ γ} {k : κ}
    {x : Act σ Fault γ} (hx : x.Oblivious f) (htable : ∀ s, t.table (f s) = t.table s)
    (hput : ∀ m s, t.put m (f s) = f (t.put m s)) : (t.getOrCompute k x).Oblivious f := by
  intro s
  rw [Shelf.getOrCompute, Shelf.getOrCompute, htable, hput, hx]
  cases (t.table s).get? k with
  | some a => rfl
  | none =>
    rcases x (t.put ((t.table s).reserve k) s) with ⟨e | a, s'⟩
    · rfl
    · simp only [htable, hput]

end Oblivious

end Act

namespace Dictionary

variable {d : Dictionary ω} {host : Host α ω} {id : ContainerId} {k : TypeKey} {sc : Scene α ω}

/-! ## Searches and the resolved pairs -/

/-- A search has the same outcome whatever pairs are resolved. -/
theorem preGenerated_oblivious (d : Dictionary ω) (host : Host α ω) (id : ContainerId)
    (m : Memo ContainerId (Resolved PairViews)) :
    (d.preGenerated host id).Oblivious fun sc : Scene α ω => { sc with tables.pairs := m } := by
  have hhash : (d.closureHash id : Act (Scene α ω) Fault _).Oblivious
      fun sc => { sc with tables.pairs := m } :=
    .getOrCompute (.ofExcept _) (fun _ => rfl) fun _ _ => rfl
  -- of all tables, adopting looks at that of the hashes only
  have hadopt (assembly : String) (views : OrderedMap Extent View) (a : Artifact) :
      (d.adopt id assembly views a : Act (Scene α ω) _ _).Oblivious
        fun sc => { sc with tables.pairs := m } := by
    cases h : ClosureHash.parse a.hash with
    | error e =>
      rw [Dictionary.adopt, h]
      exact .pure _
    | ok expected =>
      rw [d.adopt_eq id assembly views h]
      exact hhash.widen.bind fun live => .ofExcept _
  rw [preGenerated]
  refine .bind (.ofExcept _) fun pair => ?_
  refine .bind (.widen (.zoom (fun _ => rfl) fun _ _ => rfl)) fun candidates => ?_
  refine .foldlM (fun views assembly => ?_) _ _
  rw [adoptAssembly]
  refine .bind (.widen (.settled (.zoom (fun _ => rfl) fun _ _ => rfl))) fun loaded => ?_
  cases loaded with
  | error e => exact .pure _
  | ok artifacts => exact .foldlM (hadopt (host.name assembly)) _ _

/-! ## Logs -/

/-- A log in the world: the generator adds what it is asked for, and the host leaves it alone. -/
structure Logged (d : Dictionary ω) (host : Host α ω) (log : ω → List Operation) : Prop where
  scan : ∀ w, log (host.scan w).2 = log w
  load : ∀ a w, log (host.load a w).2 = log w
  generator : ∀ q w, log (d.generator q w).2 = log w ++ [q.operation]

/-- From one state of a log to a later one, a call is added if and only if a condition holds. -/
structure AddedIf (p : Prop) (call : Operation) (before after : List Operation) : Prop where
  added : p → after = before ++ [call]
  same : ¬ p → after = before

/-- The condition of a call may be said in another way. -/
theorem AddedIf.congr {p q : Prop} {call : Operation} {before after : List Operation}
    (h : AddedIf p call before after) (hpq : p ↔ q) : AddedIf q call before after :=
  ⟨fun hq => h.added (hpq.2 hq), fun hq => h.same fun hp => hq (hpq.1 hp)⟩

section Logged

variable {log : ω → List Operation}

/-- What is looked up in a table first is computed only if it is not there. -/
theorem AddedIf.getOrCompute {κ : Type} [DecidableEq κ] {t : Shelf (Scene α ω) κ γ} {key : κ}
    {x : Act (Scene α ω) Fault γ} {p : Prop} {call : Operation}
    (hput : ∀ m sc, (t.put m sc).world = sc.world)
    (hx : (∀ f, (x (t.put ((t.table sc).reserve key) sc)).1 ≠ .error f) →
      AddedIf p call (log sc.world)
        (log (x (t.put ((t.table sc).reserve key) sc)).2.world))
    (hquiet : ∀ f, (t.getOrCompute key x sc).1 ≠ .error f) :
    AddedIf ((t.table sc).get? key = none ∧ p) call (log sc.world)
      (log (t.getOrCompute key x sc).2.world) := by
  cases hget : (t.table sc).get? key with
  | some r =>
    rw [t.getOrCompute_of_some x hget]
    exact ⟨fun hg => (by cases hg.1), fun _ => rfl⟩
  | none =>
    rcases hrun : x (t.put ((t.table sc).reserve key) sc) with ⟨f | r, sc'⟩ <;> rw [hrun] at hx
    · rw [t.getOrCompute_of_error hget hrun] at hquiet
      exact absurd rfl (hquiet f)
    · rw [t.getOrCompute_of_ok hget hrun, hput]
      exact (hx fun f h => by cases h).congr (and_iff_right rfl).symm

/-- Whatever does not ask the generator leaves a log alone that the host leaves alone. -/
theorem lasting_log {log : ω → β} (hscan : ∀ w, log (host.scan w).2 = log w)
    (hload : ∀ a w, log (host.load a w).2 = log w) (l : β) :
    d.Lasting host fun sc => log sc.world = l where
  scanned hs := (hscan _).trans hs
  loaded a hs := (hload a _).trans hs
  cleared hs := hs
  serial _ hs := hs
  foreignKeys _ hs := hs
  members _ hs := hs
  reserved _ hs := hs
  hashed _ _ hs _ := hs

/-- Warnings go to the tables, not to the log. -/
theorem recordWarnings_log {log : ω → β} (made : Generated) (l : β) :
    (Scene.recordWarnings made : Act (Scene α ω) ε Unit).Keeps fun sc => log sc.world = l :=
  .modify fun _ hs => hs

/-- A step leaves a log alone that the generator leaves alone, too. -/
theorem perform_log {log : ω → β} (hscan : ∀ w, log (host.scan w).2 = log w)
    (hload : ∀ a w, log (host.load a w).2 = log w)
    (hgenerator : ∀ q w, log (d.generator q w).2 = log w) (step : Step) (sc : Scene α ω) :
    log (d.perform host step sc).2.world = log sc.world := by
  have hp : d.Insensitive host fun sc' => log sc'.world = log sc.world :=
    { toLasting := lasting_log hscan hload _
      generated := fun q hs => (hgenerator q _).trans hs
      warnings := fun _ hs => hs
      typed := fun _ hs => hs }
  refine (hp.perform step (fun id _ => ?_) sc rfl).1
  exact .getOrCompute (hp.computePair (fun _ h => h) id) (fun _ h => h) fun _ _ h _ => h

/-- The host and the bookkeeping leave the log alone. -/
theorem Logged.lasting (h : d.Logged host log) (l : List Operation) :
    d.Lasting host fun sc => log sc.world = l :=
  lasting_log h.scan h.load l

/-- A question to the generator is one call. -/
theorem Logged.ask (h : d.Logged host log) (mapping : ContainerMapping) (operation : Operation) :
    (d.ask mapping operation : Act (Scene α ω) _ _).Adds (fun sc => log sc.world) [operation] :=
  fun sc _ => h.generator ⟨d.schema, mapping, d.config, operation⟩ sc.world

/-- The views of a pair are one call. -/
theorem Logged.generatePair (h : d.Logged host log) (id : ContainerId) :
    (d.generatePair id : Act (Scene α ω) _ _).Adds (fun sc => log sc.world) [.pair id] := by
  rw [Dictionary.generatePair]
  refine .after_lookup _ fun pair => .after_lookup _ fun mapping => ?_
  refine (h.ask mapping (.pair id)).bind fun made => .of_keeps fun l => ?_
  by_cases he : made.hasErrors
  · rw [if_pos he]
    exact .ofExcept _
  · rw [if_neg he]
    exact (recordWarnings_log made l).bind fun _ => .ofExcept _

/-- The view of a type in a mapped container is one call. -/
theorem Logged.generateTyped (h : d.Logged host log) {mapping : ContainerMapping}
    (hmapping : d.schema.mapping.container? k.entitySet.container = some mapping) :
    (d.generateTyped k : Act (Scene α ω) _ _).Adds (fun sc => log sc.world) [.ofType k] := by
  rw [Dictionary.generateTyped, hmapping]
  refine (h.ask mapping (.ofType k)).settled.bind fun made => .of_keeps fun l => ?_
  cases made with
  | error e => exact .pure _
  | ok made =>
    simp only
    by_cases he : made.hasErrors
    · rw [if_pos he]
      exact .pure _
    · rw [if_neg he]
      refine (recordWarnings_log made l).bind fun _ => ?_
      cases made.views.get? (.entitySet k.entitySet) with
      | none => exact .pure _
      | some body => exact (Act.Keeps.ofExcept _).bind fun view => .pure _

/-! ## Pairs -/

/-- Where the views of a pair have to be made: nothing else is tried, or the search for artifacts
ends well and finds nothing. -/
def Generates (d : Dictionary ω) (host : Host α ω) (id : ContainerId) (sc : Scene α ω) : Prop :=
  sc.tables.mode = .runtimeGeneration ∨ (d.preGenerated host id sc).1 = .ok .empty

/-- A slot that was made for a pair does not change whether its views have to be made. -/
theorem generates_reserved_iff : d.Generates host id
      (Scene.pairs.put (sc.tables.pairs.reserve id) sc) ↔ d.Generates host id sc := by
  have hsearch := d.preGenerated_oblivious host id (sc.tables.pairs.reserve id) sc
  have hsame : (d.preGenerated host id (Scene.pairs.put (sc.tables.pairs.reserve id) sc)).1 =
      (d.preGenerated host id sc).1 := by
    have houtcome := congrArg Prod.fst hsearch
    exact houtcome
  rw [Generates, Generates, hsame]
  rfl

/-- Resolving a pair makes one call if its views have to be made, and no other. -/
theorem Logged.resolvePair (h : d.Logged host log) (id : ContainerId) (sc : Scene α ω)
    (hquiet : ∀ f, (d.resolvePair host id sc).1 ≠ .error (.fault f)) :
    AddedIf (d.Generates host id sc) (.pair id) (log sc.world)
      (log (d.resolvePair host id sc).2.world) := by
  rw [Dictionary.resolvePair, Act.bind_apply_ok (Act.state_apply sc)] at hquiet ⊢
  cases hmode : sc.tables.mode with
  | runtimeGeneration =>
    rw [hmode] at hquiet
    exact ⟨fun _ => h.generatePair id sc hquiet, fun hn => absurd (.inl hmode) hn⟩
  | generatedViews =>
    rw [hmode] at hquiet
    -- the search itself makes no call, so all depends on what it finds
    have hkept : log (d.preGenerated host id sc).2.world = log sc.world :=
      ((h.lasting _).preGenerated id sc rfl).1
    have hgenerates : d.Generates host id sc → (d.preGenerated host id sc).1 = .ok .empty :=
      fun hg => hg.resolve_left fun hruntime => by rw [hmode] at hruntime; cases hruntime
    rcases hsearch : d.preGenerated host id sc with ⟨e | adopted, sc'⟩ <;>
      rw [hsearch] at hkept hgenerates
    · simp only at hquiet ⊢
      rw [Act.bind_apply_error hsearch]
      refine ⟨fun hg => ?_, fun _ => hkept⟩
      cases hgenerates hg
    · simp only at hquiet ⊢
      rw [Act.bind_apply_ok hsearch] at hquiet ⊢
      by_cases he : adopted.isEmpty = true
      · rw [if_pos he] at hquiet ⊢
        have hcall := h.generatePair id { sc' with tables.mode := .runtimeGeneration } hquiet
        have hempty : adopted = .empty := OrderedMap.ext (List.isEmpty_iff.1 he)
        refine ⟨fun _ => hcall.trans (congrArg (· ++ _) hkept), fun hn => absurd (.inr ?_) hn⟩
        rw [hsearch, hempty]
      · rw [if_neg he]
        refine ⟨fun hg => absurd ?_ he, fun _ => hkept⟩
        rw [Except.ok.inj (hgenerates hg)]
        rfl

/-- So does computing it, with numbers given. -/
theorem Logged.computePair (h : d.Logged host log) (id : ContainerId) (sc : Scene α ω)
    (hquiet : ∀ f, (d.computePair host id sc).1 ≠ .error f) :
    AddedIf (d.Generates host id sc) (.pair id) (log sc.world)
      (log (d.computePair host id sc).2.world) := by
  have hresolve := h.resolvePair id sc
  rw [Dictionary.computePair, Act.bind_apply, Act.settled] at hquiet ⊢
  -- what is issued afterwards leaves the log alone
  rcases hrun : d.resolvePair host id sc with ⟨(f | e) | views, sc'⟩ <;>
    rw [hrun] at hquiet hresolve
  · exact absurd rfl (hquiet f)
  · exact hresolve fun f h => by cases h
  · exact hresolve fun f h => by cases h

/-- The generator is asked for a pair if it is not resolved yet and its views have to be made. -/
theorem Logged.pairViews (h : d.Logged host log) (id : ContainerId) (sc : Scene α ω)
    (hquiet : ∀ f, (d.pairViews host id sc).1 ≠ .error f) :
    AddedIf (sc.tables.pairs.get? id = none ∧ d.Generates host id sc) (.pair id) (log sc.world)
      (log (d.pairViews host id sc).2.world) := by
  have hpairs : d.pairViews host id = Scene.pairs.getOrCompute id (d.computePair host id) := rfl
  rw [hpairs] at hquiet ⊢
  refine .getOrCompute (fun _ _ => rfl) (fun hcompute => ?_) hquiet
  exact (h.computePair id _ hcompute).congr generates_reserved_iff

/-! ## Views of types -/

/-- The view of a type is one call if its container is mapped, and none otherwise. -/
theorem Logged.computeTyped (h : d.Logged host log) (k : TypeKey) (sc : Scene α ω)
    (hquiet : ∀ f, (d.computeTyped k sc).1 ≠ .error f) :
    AddedIf (d.schema.mapping.container? k.entitySet.container).isSome (.ofType k) (log sc.world)
      (log (d.computeTyped k sc).2.world) := by
  cases hmapping : d.schema.mapping.container? k.entitySet.container with
  | none =>
    refine ⟨fun hg => (by cases hg), fun _ => ?_⟩
    rw [Dictionary.computeTyped, Dictionary.generateTyped, hmapping]
    rfl
  | some mapping =>
    refine ⟨fun _ => ?_, fun hn => absurd rfl hn⟩
    rw [Dictionary.computeTyped] at hquiet ⊢
    refine ((h.generateTyped hmapping).bind fun view => .of_keeps fun l => ?_) sc hquiet
    cases view with
    | none => exact .pure _
    | some view => exact ((h.lasting l).issue view).bind fun _ => .pure _

/-- The generator is asked for the view of a type if it is not in the table yet, and neither the
user nor the schema settles the answer. -/
theorem Logged.getViewOfType (h : d.Logged host log) (k : TypeKey) (sc : Scene α ω)
    (hquiet : ∀ f, (d.getViewOfType k sc).1 ≠ .error f) :
    AddedIf (d.settledTyped? k = .ok none ∧ sc.tables.typed.get? k = none ∧
        (d.schema.mapping.container? k.entitySet.container).isSome)
      (.ofType k) (log sc.world) (log (d.getViewOfType k sc).2.world) := by
  rw [getViewOfType_eq] at hquiet ⊢
  cases hsettled : d.settledTyped? k with
  | error f =>
    rw [hsettled] at hquiet
    exact absurd rfl (hquiet f)
  | ok answer =>
    cases answer with
    | some answer => exact ⟨fun hg => (by cases hg.1), fun _ => rfl⟩
    | none =>
      rw [hsettled] at hquiet
      change AddedIf _ _ _ (log (Scene.typed.getOrCompute k (d.computeTyped k) sc).2.world)
      have hadded : AddedIf (sc.tables.typed.get? k = none ∧
          (d.schema.mapping.container? k.entitySet.container).isSome) (.ofType k) (log sc.world)
          (log (Scene.typed.getOrCompute k (d.computeTyped k) sc).2.world) :=
        .getOrCompute (fun _ _ => rfl) (h.computeTyped k _) hquiet
      exact hadded.congr (and_iff_right rfl).symm

/-! ## Steps -/

variable {step : Step}

/-- The generator is asked for the pair that a step needs if it is not resolved yet and has to be
made. -/
theorem Logged.perform_pair (h : d.Logged host log) (hneeds : d.Needs step id)
    (hquiet : ∀ f, (d.perform host step sc).1 ≠ .error (.fault f)) :
    AddedIf (sc.tables.pairs.get? id = none ∧ d.Generates host id sc) (.pair id) (log sc.world)
      (log (d.perform host step sc).2.world) := by
  have hpair := h.pairViews id sc
  obtain ⟨rest, hrest, hkeeps⟩ := d.exists_rest host hneeds
  rw [hrest] at hquiet ⊢
  obtain ⟨r, sc', hrun⟩ := Act.exists_ok_of_widen_bind hquiet
  have hkept : log (rest r sc').2.world = log sc'.world :=
    (hkeeps _ (h.lasting (log sc'.world)).toSteadfast r sc' rfl).1
  rw [hrun] at hpair
  rw [Act.widen_bind_of_ok hrun, hkept]
  exact hpair fun f h => by cases h

/-- A step for the view of a type makes a call if nothing but the generator can answer, the table
does not have it, and the container is mapped. -/
theorem Logged.perform_typed (h : d.Logged host log)
    (hquiet : ∀ f, (d.perform host (.getViewOfType k) sc).1 ≠ .error (.fault f)) :
    AddedIf (d.settledTyped? k = .ok none ∧ sc.tables.typed.get? k = none ∧
        (d.schema.mapping.container? k.entitySet.container).isSome)
      (.ofType k) (log sc.world) (log (d.perform host (.getViewOfType k) sc).2.world) := by
  have htyped := h.getViewOfType k sc
  rw [Dictionary.perform] at hquiet ⊢
  obtain ⟨view, sc', hrun⟩ := Act.exists_ok_of_widen_bind hquiet
  rw [hrun] at htyped
  rw [Act.widen_bind_of_ok hrun]
  cases view <;> exact htyped fun f h => by cases h

/-- The generator is not asked for anything by a step that needs no pair and is not about a type. -/
theorem Logged.perform_quiet (h : d.Logged host log) (sc : Scene α ω)
    (hquiet : ∀ id, ¬ d.Needs step id) (htyped : ∀ k, step ≠ .getViewOfType k) :
    log (d.perform host step sc).2.world = log sc.world :=
  ((h.lasting (log sc.world)).perform step (fun id hneeds => absurd hneeds (hquiet id))
    (fun k hk => absurd hk (htyped k)) sc rfl).1

end Logged

/-! ## What is in the tables -/

section Tables

variable {step : Step}

/-- Without a fault, a step resolves the pair that it needs, and no other. -/
theorem get?_pairs_perform_eq_none_iff
    (hquiet : ∀ f, (d.perform host step sc).1 ≠ .error (.fault f)) :
    (d.perform host step sc).2.tables.pairs.get? id = none ↔
      sc.tables.pairs.get? id = none ∧ ¬ d.Needs step id := by
  constructor
  · intro hnone
    refine ⟨Option.eq_none_iff_forall_ne_some.2 fun r hr => ?_, fun hneeds => ?_⟩
    · have hwithin := (d.keeps_published host sc.tables step sc (.refl _)).1
      rw [hwithin.pairs id r hr] at hnone
      cases hnone
    · obtain ⟨rest, hrest, hkeeps⟩ := d.exists_rest host hneeds
      rw [hrest] at hquiet hnone
      obtain ⟨r, sc', hrun⟩ := Act.exists_ok_of_widen_bind hquiet
      have hp : d.Insensitive host fun sc => sc.tables.pairs.get? id = some r :=
        insensitive_pairs fun pairs => pairs.get? id = some r
      -- what follows in the step leaves the pair resolved
      have hkept := (hkeeps _ hp.toSteadfast r sc' (Act.get?_of_getOrCompute hrun)).1
      rw [Act.widen_bind_of_ok hrun] at hnone
      rw [hnone] at hkept
      cases hkept
  · rintro ⟨hnone, hother⟩
    have hp : d.Insensitive host fun sc => sc.tables.pairs.get? id = none :=
      insensitive_pairs fun pairs => pairs.get? id = none
    refine (hp.perform step (fun j hj => ?_) sc hnone).1
    have hne : j ≠ id := fun h => hother (h ▸ hj)
    -- resolving another pair writes to the slot of that one only
    refine .getOrCompute (hp.computePair (fun _ h => h) j) (fun sc h => ?_) fun sc r h _ => ?_
    · exact (Memo.get?_reserve _ _ _).trans h
    · refine (Memo.get?_publish _ _ _ _).trans ?_
      rw [if_neg hne]
      exact h

/-- The views of types are changed by nothing but making one. -/
theorem enduring_typed (Q : Memo TypeKey (Option (Published View)) → Prop) :
    d.Enduring host fun sc => Q sc.tables.typed where
  scanned h := h
  loaded _ h := h
  generated _ h := h
  cleared h := h
  serial _ h := h
  warnings _ h := h
  foreignKeys _ h := h
  members _ h := h
  reserved _ h := h
  hashed _ _ h _ := h

/-- Without a fault, a step puts the view of a type into the table if that is what it is about and
the answer is not settled otherwise, and no other view. -/
theorem get?_typed_perform_eq_none_iff
    (hquiet : ∀ f, (d.perform host step sc).1 ≠ .error (.fault f)) :
    (d.perform host step sc).2.tables.typed.get? k = none ↔
      sc.tables.typed.get? k = none ∧
        ¬ (step = .getViewOfType k ∧ d.settledTyped? k = .ok none) := by
  constructor
  · intro hnone
    refine ⟨Option.eq_none_iff_forall_ne_some.2 fun r hr => ?_, ?_⟩
    · have hwithin := (d.keeps_published host sc.tables step sc (.refl _)).1
      rw [hwithin.typed k r hr] at hnone
      cases hnone
    -- a request for the type itself that ended well has filled the table
    · rintro ⟨rfl, hsettled⟩
      rw [perform] at hquiet hnone
      obtain ⟨view, sc', hrun⟩ := Act.exists_ok_of_widen_bind hquiet
      rw [Act.widen_bind_of_ok hrun] at hnone
      rw [getViewOfType_eq, hsettled] at hrun
      have hget : sc'.tables.typed.get? k = some view := Act.get?_of_getOrCompute hrun
      have hnone : sc'.tables.typed.get? k = none := by cases view <;> exact hnone
      rw [hget] at hnone
      cases hnone
  -- any other step leaves the place empty, a request for another type included
  · rintro ⟨hnone, hother⟩
    have hp : d.Enduring host fun sc => sc.tables.typed.get? k = none :=
      enduring_typed fun typed => typed.get? k = none
    refine (hp.perform step (fun id _ => ?_) (fun j hj => ?_) sc hnone).1
    · exact .getOrCompute (hp.computePair (fun _ h => h) id) (fun _ h => h) fun _ _ h _ => h
    · rw [getViewOfType_eq]
      refine Act.Ensures.ofExcept_then (fun answer hanswer => ?_) fun _ _ => trivial
      cases answer with
      | some answer => exact Act.Keeps.pure answer
      | none =>
        have hne : j ≠ k := by
          rintro rfl
          exact hother ⟨hj, hanswer⟩
        refine Act.Keeps.getOrCompute (hp.computeTyped j) (fun sc h => ?_) fun sc r h _ => ?_
        · exact (Memo.get?_reserve _ _ _).trans h
        · refine (Memo.get?_publish _ _ _ _).trans ?_
          rw [if_neg hne]
          exact h

/-- What the tables of a dictionary have after some steps none of which faulted. -/
structure Answered (d : Dictionary ω) (earlier : List Step) (t : Tables) : Prop where
  pairs : ∀ id, t.pairs.get? id = none ↔ ∀ step ∈ earlier, ¬ d.Needs step id
  typed : ∀ k, t.typed.get? k = none ↔
    ¬ (.getViewOfType k ∈ earlier ∧ d.settledTyped? k = .ok none)

/-- At the start nothing was answered. -/
theorem answered_start {t : Tables} (hpairs : t.pairs = .empty) (htyped : t.typed = .empty) :
    d.Answered [] t where
  pairs id := by
    rw [hpairs]
    exact ⟨fun _ => List.forall_mem_nil _, fun _ => rfl⟩
  typed k := by
    rw [htyped]
    exact ⟨fun _ h => (List.not_mem_nil h.1).elim, fun _ => rfl⟩

/-- A step that does not fault puts its answer into the tables. -/
theorem Answered.perform {earlier : List Step} (h : d.Answered earlier sc.tables)
    (hquiet : ∀ f, (d.perform host step sc).1 ≠ .error (.fault f)) :
    d.Answered (earlier ++ [step]) (d.perform host step sc).2.tables where
  pairs id := by
    rw [get?_pairs_perform_eq_none_iff hquiet, h.pairs, List.forall_mem_append,
      List.forall_mem_singleton]
  typed k := by
    rw [get?_typed_perform_eq_none_iff hquiet, h.typed, List.mem_append, List.mem_singleton,
      or_and_right, not_or, @eq_comm _ step]

end Tables

/-! ## Calls -/

/-- A step in a scene, after some steps earlier, makes a call of the generator. -/
inductive Calls (d : Dictionary ω) (host : Host α ω) (earlier : List Step) (sc : Scene α ω) :
    Step → Operation → Prop
  /-- it is the first that needs the views of a pair, and they have to be made -/
  | pair {step : Step} {id : ContainerId} (hneeds : d.Needs step id)
    (hfirst : ∀ step ∈ earlier, ¬ d.Needs step id) (hgenerates : d.Generates host id sc) :
    Calls d host earlier sc step (.pair id)
  /-- it is the first for the view of a type that is not abstract, where the user has no view for
  the type or for the set, and the container is mapped -/
  | ofType {k : TypeKey} {m : Model} (hfirst : .getViewOfType k ∉ earlier)
    (htype : d.userViews.get? (.ofType k) = none)
    (hmodel : d.schema.conceptual.model k.type = .ok m) (hconcrete : m.isAbstract = false)
    (hset : d.userViews.get? (.extent (.entitySet k.entitySet)) = none)
    (hmapped : (d.schema.mapping.container? k.entitySet.container).isSome) :
    Calls d host earlier sc (.getViewOfType k) (.ofType k)

/-- The tables have a say if the user has none, the type is not abstract, and the user did not write
the view of the set as a whole. -/
theorem settledTyped?_eq_none_iff : d.settledTyped? k = .ok none ↔
    d.userViews.get? (.ofType k) = none ∧
      (∃ m, d.schema.conceptual.model k.type = .ok m ∧ m.isAbstract = false) ∧
      d.userViews.get? (.extent (.entitySet k.entitySet)) = none := by
  rw [settledTyped?]
  cases d.userViews.get? (.ofType k) with
  | some view => exact ⟨fun h => (by cases h), fun h => (by cases h.1)⟩
  | none =>
    simp only [true_and]
    cases d.schema.conceptual.model k.type with
    | error f =>
      refine ⟨fun h => (by cases h), ?_⟩
      rintro ⟨⟨m, hm, -⟩, -⟩
      cases hm
    | ok m =>
      change (if m.isAbstract then _ else if d.userViews.contains _ then _ else _) = _ ↔ _
      rw [OrderedMap.contains]
      cases habstract : m.isAbstract <;>
        cases d.userViews.get? (.extent (.entitySet k.entitySet)) <;>
          simp [habstract, pure, Except.pure]

/-- A step adds to the log the call that it makes, and otherwise leaves it alone. -/
theorem Logged.perform {log : ω → List Operation} (h : d.Logged host log) {earlier : List Step}
    {step : Step} (sc : Scene α ω) (hanswered : d.Answered earlier sc.tables)
    (hquiet : ∀ f, (d.perform host step sc).1 ≠ .error (.fault f)) :
    (∀ call, d.Calls host earlier sc step call →
        log (d.perform host step sc).2.world = log sc.world ++ [call]) ∧
      ((∀ call, ¬ d.Calls host earlier sc step call) →
        log (d.perform host step sc).2.world = log sc.world) := by
  -- a step calls for a pair, or for a type, or not at all, and never for both
  by_cases hneeds : ∃ id, d.Needs step id
  · obtain ⟨id, hneeds⟩ := hneeds
    have hadded := h.perform_pair hneeds hquiet
    refine ⟨fun call hcall => ?_, fun hn => hadded.same fun hg => hn (.pair id) ?_⟩
    · cases hcall with
      | pair hneeds' hfirst hgenerates =>
        cases hneeds.unique hneeds'
        exact hadded.added ⟨(hanswered.pairs id).2 hfirst, hgenerates⟩
      | ofType => cases hneeds
    · exact .pair hneeds ((hanswered.pairs id).1 hg.1) hg.2
  · by_cases htyped : ∃ k, step = .getViewOfType k
    · obtain ⟨k, rfl⟩ := htyped
      have hadded := h.perform_typed hquiet
      refine ⟨fun call hcall => ?_, fun hn => hadded.same fun hg => hn (.ofType k) ?_⟩
      · cases hcall with
        | pair hneeds' => cases hneeds'
        | ofType hfirst htype hmodel hconcrete hset hmapped =>
          exact hadded.added ⟨settledTyped?_eq_none_iff.2 ⟨htype, ⟨_, hmodel, hconcrete⟩, hset⟩,
            (hanswered.typed k).2 fun hg => hfirst hg.1, hmapped⟩
      · obtain ⟨hsettled, hnone, hmapped⟩ := hg
        obtain ⟨htype, ⟨m, hmodel, hconcrete⟩, hset⟩ := settledTyped?_eq_none_iff.1 hsettled
        refine .ofType (fun hmem => ?_) htype hmodel hconcrete hset hmapped
        exact (hanswered.typed k).1 hnone ⟨hmem, hsettled⟩
    · have hkept := h.perform_quiet sc (not_exists.1 hneeds) fun k hk => htyped ⟨k, hk⟩
      refine ⟨fun call hcall => ?_, fun _ => hkept⟩
      cases hcall with
      | pair hneeds' => exact absurd ⟨_, hneeds'⟩ hneeds
      | ofType => exact absurd ⟨_, rfl⟩ htyped

/-! ## Steps that spare a call -/

/-- A step that is exempt makes no call, whatever happened before. -/
theorem Exempt.not_calls {earlier : List Step} (h : d.Exempt step) (call : Operation) :
    ¬ d.Calls host earlier sc step call := by
  intro hcall
  cases hcall with
  | pair hneeds => exact h.not_needs _ hneeds
  | ofType _ htype _ _ hset hmapped =>
    cases h with
    | userTypeView huser => cases htype.symm.trans huser
    | userSetView huser => cases hset.symm.trans huser
    | unmappedType hmapping =>
      rw [hmapping] at hmapped
      cases hmapped

/-- A step in a scene, after some steps earlier, that is served without the generator: from a table,
by the user, by a foreign key, or from artifacts. -/
inductive Spared (d : Dictionary ω) (host : Host α ω) (earlier : List Step) (sc : Scene α ω) :
    Step → Prop
  /-- the views of the pair were needed before -/
  | resolved {step before : Step} {id : ContainerId} (hneeds : d.Needs step id)
    (hmem : before ∈ earlier) (hbefore : d.Needs before id) : Spared d host earlier sc step
  /-- the view of the type was asked for before -/
  | typed {k : TypeKey} (hmem : .getViewOfType k ∈ earlier) :
    Spared d host earlier sc (.getViewOfType k)
  | members (k : MembersKey) : Spared d host earlier sc (.members k)
  | closureHash (id : ContainerId) : Spared d host earlier sc (.closureHash id)
  /-- the user, a foreign key or the lack of a mapping settles the answer -/
  | exempt {step : Step} (h : d.Exempt step) : Spared d host earlier sc step
  /-- artifacts are searched, and some are found for the pair -/
  | artifact {step : Step} {id : ContainerId} {adopted : OrderedMap Extent View}
    (hneeds : d.Needs step id) (hmode : sc.tables.mode = .generatedViews)
    (hsearch : (d.preGenerated host id sc).1 = .ok adopted) (hfound : adopted ≠ .empty) :
    Spared d host earlier sc step

/-- A step that is spared makes no call. -/
theorem Spared.not_calls {earlier : List Step} (h : d.Spared host earlier sc step)
    (call : Operation) : ¬ d.Calls host earlier sc step call := by
  intro hcall
  cases h with
  | exempt h => exact h.not_calls call hcall
  | resolved hneeds hmem hbefore =>
    cases hcall with
    | pair hneeds' hfirst =>
      cases hneeds.unique hneeds'
      exact hfirst _ hmem hbefore
    | ofType => cases hneeds
  | artifact hneeds hmode hsearch hfound =>
    cases hcall with
    | pair hneeds' _ hgenerates =>
      cases hneeds.unique hneeds'
      rcases hgenerates with hruntime | hempty
      · cases hmode.symm.trans hruntime
      · exact hfound (Except.ok.inj (hsearch.symm.trans hempty))
    | ofType => cases hneeds
  | typed hmem =>
    cases hcall with
    | pair hneeds => cases hneeds
    | ofType hfirst => exact hfirst hmem
  | members | closureHash =>
    cases hcall with
    | pair hneeds => cases hneeds

end Dictionary

end QueryViews
