import QueryViews.Proofs.Dictionary.Calls

/-!
# The warnings of a dictionary

A dictionary records the warnings of a response of its generator exactly if the response came
without errors, whether it was asked for a pair or for a type, and whether or not a view comes of
it. What the responses were is read off a transcript in the world (`Dictionary.Transcribed`), to
which the generator adds every question with its response.

An act **records** (`Act.Records`) if the warnings grow by those of whatever it adds to the
transcript; of each exchange that it adds, one can then say how the act ends. So a pair for which
the generator reports errors ends with an error that has all the diagnostics, and the tables have
that error from then on (`Transcribed.perform`).
-/

namespace QueryViews

variable {α ω γ δ ε : Type}

/-- A question to a generator, and its response. -/
structure Exchange where
  operation : Operation
  response : Except (Failure Error) Generated

namespace Exchange

/-- The warnings that are recorded of an exchange: those of a response without errors. -/
def recorded (x : Exchange) : List Diagnostic :=
  match x.response with
  | .ok made => if made.hasErrors then [] else made.warnings
  | .error _ => []

/-- With errors, no warnings are recorded. -/
theorem recorded_of_hasErrors {operation : Operation} {made : Generated}
    (h : made.hasErrors = true) : recorded ⟨operation, .ok made⟩ = [] := if_pos h

/-- Without errors, all warnings are recorded. -/
theorem recorded_of_not_hasErrors {operation : Operation} {made : Generated}
    (h : ¬ made.hasErrors = true) : recorded ⟨operation, .ok made⟩ = made.warnings := if_neg h

end Exchange

namespace Act

/-! ## Acts that record warnings -/

/-- The act adds nothing to a transcript and records no warning. -/
def Silent (log : ω → List Exchange) (x : Act (Scene α ω) ε γ) : Prop :=
  ∀ l ds, x.Keeps fun sc => log sc.world = l ∧ sc.tables.warnings = ds

/-- The act records the warnings of what it adds to a transcript, and for each exchange that it adds
it ends in a way that fits. -/
def Records (log : ω → List Exchange) (x : Act (Scene α ω) ε γ)
    (fits : Exchange → Except ε γ → Prop) : Prop :=
  ∀ sc, ∃ heard, log (x sc).2.world = log sc.world ++ heard ∧
    (x sc).2.tables.warnings = sc.tables.warnings ++ heard.flatMap Exchange.recorded ∧
    ∀ c ∈ heard, fits c (x sc).1

section Records

variable {log : ω → List Exchange} {x : Act (Scene α ω) ε γ} {f : γ → Act (Scene α ω) ε δ}
  {fits : Exchange → Except ε γ → Prop} {fits' : Exchange → Except ε δ → Prop}

/-- An act that asks nothing records what it should, whatever fits. -/
theorem Silent.records (h : x.Silent log) : x.Records log fits := by
  intro sc
  obtain ⟨hlog, hwarnings⟩ := (h _ _ sc ⟨rfl, rfl⟩).1
  refine ⟨[], ?_, ?_, List.forall_mem_nil _⟩
  · rw [hlog, List.append_nil]
  · rw [hwarnings, List.flatMap_nil, List.append_nil]

theorem Silent.ofExcept (r : Except ε γ) : (Act.ofExcept r : Act (Scene α ω) ε γ).Silent log :=
  fun _ _ => .ofExcept r

theorem Silent.pure (a : γ) : (Pure.pure a : Act (Scene α ω) ε γ).Silent log :=
  fun _ _ => .pure a

/-- A sequence of silent acts is silent. -/
theorem Silent.bind (hx : x.Silent log) (hf : ∀ a, (f a).Silent log) : (x >>= f).Silent log :=
  fun l ds => (hx l ds).bind fun a => hf a l ds

/-- What follows the recording of some warnings. -/
theorem recordWarnings_bind (made : Generated) {f : Unit → Act (Scene α ω) ε γ}
    (hf : ∀ a, (f a).Silent log) (sc : Scene α ω) :
    log ((Scene.recordWarnings made >>= f) sc).2.world = log sc.world ∧
      ((Scene.recordWarnings made >>= f) sc).2.tables.warnings =
        sc.tables.warnings ++ made.warnings :=
  (hf () _ _ { sc with tables.warnings := sc.tables.warnings ++ made.warnings } ⟨rfl, rfl⟩).1

/-- What an act adds fits the whole, if it fits what follows. -/
theorem Records.bind (hx : x.Records log fits) (hf : ∀ a, (f a).Records log fits')
    (hok : ∀ c a, fits c (.ok a) → ∀ sc, fits' c (f a sc).1)
    (herror : ∀ c e, fits c (.error e) → fits' c (.error e)) : (x >>= f).Records log fits' := by
  intro sc
  obtain ⟨heard, hlog, hwarnings, hfits⟩ := hx sc
  rw [bind_apply]
  rcases hxs : x sc with ⟨e | a, sc'⟩ <;> rw [hxs] at hlog hwarnings hfits
  · exact ⟨heard, hlog, hwarnings, fun c hc => herror c e (hfits c hc)⟩
  · obtain ⟨heard', hlog', hwarnings', hfits'⟩ := hf a sc'
    refine ⟨heard ++ heard', ?_, ?_, fun c hc => ?_⟩
    · rw [hlog', hlog, List.append_assoc]
    · rw [hwarnings', hwarnings, List.flatMap_append, List.append_assoc]
    · exact (List.mem_append.1 hc).elim (fun hc => hok c a (hfits c hc) sc') (hfits' c)

/-- What follows an act that adds nothing. -/
theorem Silent.then (hx : x.Silent log) (hf : ∀ a, (f a).Records log fits') :
    (x >>= f).Records log fits' := by
  have hnothing : x.Records log fun _ _ => False := hx.records
  exact hnothing.bind hf (fun _ _ h => h.elim) fun _ _ h => h.elim

/-- What follows a look-up, if the look-up does not fault. -/
theorem Records.of_lookup {ε : Type} {r : Except Fault γ} {f : γ → Act (Scene α ω) (Failure ε) δ}
    {fits : Exchange → Except (Failure ε) δ → Prop}
    (hf : ∀ a, r = .ok a → (f a).Records log fits) :
    (Act.ofExcept (monadLift r : Except (Failure ε) γ) >>= f).Records log fits := by
  cases r with
  | ok a => exact hf a rfl
  | error g => exact Silent.records (.ofExcept (.error (Failure.fault g)))

/-- What fits an outcome has to fit it when errors are taken as values. -/
theorem Records.settled {ε : Type} {x : Act (Scene α ω) (Failure ε) γ}
    {fits : Exchange → Except (Failure ε) γ → Prop}
    {fits' : Exchange → Except Fault (Except ε γ) → Prop} (hx : x.Records log fits)
    (h : ∀ c r, fits c r → fits' c (settle r)) : x.settled.Records log fits' := by
  intro sc
  obtain ⟨heard, hlog, hwarnings, hfits⟩ := hx sc
  rw [Act.settled]
  rcases hxs : x sc with ⟨(g | e) | a, sc'⟩ <;> rw [hxs] at hlog hwarnings hfits <;>
    exact ⟨heard, hlog, hwarnings, fun c hc => h c _ (hfits c hc)⟩

/-- The same where there are more ways to fail. -/
theorem Records.widen {ε : Type} {x : Act (Scene α ω) Fault γ}
    {fits : Exchange → Except Fault γ → Prop} {fits' : Exchange → Except (Failure ε) γ → Prop}
    (hx : x.Records log fits) (h : ∀ c r, fits c r → fits' c (Except.mapError Failure.fault r)) :
    x.widen.Records log fits' := by
  intro sc
  obtain ⟨heard, hlog, hwarnings, hfits⟩ := hx sc
  rw [Act.widen, mapFailure]
  rcases hxs : x sc with ⟨g | a, sc'⟩ <;> rw [hxs] at hlog hwarnings hfits <;>
    exact ⟨heard, hlog, hwarnings, fun c hc => h c _ (hfits c hc)⟩

/-- What is computed for a table, if it leaves the key without a value, is what the table gives. -/
theorem Records.getOrCompute {κ : Type} [DecidableEq κ] {t : Shelf (Scene α ω) κ γ} {k : κ}
    {x : Act (Scene α ω) Fault γ} {fits : Exchange → Except Fault γ → Prop}
    (hx : x.Records log fits) (hnone : x.Keeps fun sc => (t.table sc).get? k = none)
    (hworld : ∀ m sc, (t.put m sc).world = sc.world)
    (hwarnings : ∀ m sc, (t.put m sc).tables.warnings = sc.tables.warnings) :
    (t.getOrCompute k x).Records log fits := by
  intro sc
  cases hk : (t.table sc).get? k with
  | some a =>
    rw [t.getOrCompute_of_some x hk]
    exact Silent.records (.pure a) sc
  | none =>
    -- a reserved slot has no value yet
    have hreserved : (t.table (t.put ((t.table sc).reserve k) sc)).get? k = none := by
      rw [t.table_put, Memo.get?_reserve, hk]
    obtain ⟨heard, hlog', hwarnings', hfits⟩ := hx (t.put ((t.table sc).reserve k) sc)
    have hnone := (hnone _ hreserved).1
    rw [hworld] at hlog'
    rw [hwarnings] at hwarnings'
    rcases hxs : x (t.put ((t.table sc).reserve k) sc) with ⟨g | a, sc'⟩ <;>
      rw [hxs] at hlog' hwarnings' hfits hnone
    · rw [t.getOrCompute_of_error hk hxs]
      exact ⟨heard, hlog', hwarnings', hfits⟩
    · rw [t.getOrCompute_of_ok hk hxs, hnone]
      exact ⟨heard, by rw [hworld, hlog'], by rw [hwarnings, hwarnings'], hfits⟩

end Records

end Act

namespace Dictionary

variable {d : Dictionary ω} {host : Host α ω} {id : ContainerId} {k : TypeKey} {sc : Scene α ω}
  {log : ω → List Exchange} {made : Generated} {e : Error}

/-! ## Errors of the generator -/

/-- The error for a pair for which the generator reported errors: it has all the diagnostics. -/
def Blames (d : Dictionary ω) (id : ContainerId) (made : Generated) (e : Error) : Prop :=
  ∃ pair, d.schema.pairName id = .ok pair ∧
    e = .ofKind (.mapping s!"view generation failed for `{pair}`" made.diagnostics)

/-- The error has the diagnostics of the generator, in their order. -/
theorem Blames.diagnostics_eq (h : d.Blames id made e) : e.diagnostics = made.diagnostics := by
  obtain ⟨pair, -, rfl⟩ := h
  rfl

/-- An exchange about a pair. If the generator reported errors in it, the error for that is told. -/
structure Tells (d : Dictionary ω) (id : ContainerId) (told : Error → Prop) (c : Exchange) :
    Prop where
  operation : c.operation = .pair id
  blamed : ∀ made, c.response = .ok made → made.hasErrors = true →
    ∃ e, d.Blames id made e ∧ told e

/-- An error may be told in another way. -/
theorem Tells.imp {told told' : Error → Prop} {c : Exchange} (h : d.Tells id told c)
    (himp : ∀ e, told e → told' e) : d.Tells id told' c where
  operation := h.operation
  blamed made hmade herrors := by
    obtain ⟨e, hblames, he⟩ := h.blamed made hmade herrors
    exact ⟨e, hblames, himp e he⟩

/-! ## Transcripts -/

/-- A transcript in the world of what the generator is asked and what it responds: the generator
adds every exchange, and the host leaves it alone. -/
structure Transcribed (d : Dictionary ω) (host : Host α ω) (log : ω → List Exchange) : Prop where
  scan : ∀ w, log (host.scan w).2 = log w
  load : ∀ a w, log (host.load a w).2 = log w
  generator : ∀ q w, log (d.generator q w).2 = log w ++ [⟨q.operation, (d.generator q w).1⟩]

variable (h : d.Transcribed host log)

include h

/-- Whatever does not ask the generator adds nothing and records nothing. -/
theorem Transcribed.lasting (l : List Exchange) (ds : List Diagnostic) :
    d.Lasting host fun sc => log sc.world = l ∧ sc.tables.warnings = ds where
  scanned hs := ⟨(h.scan _).trans hs.1, hs.2⟩
  loaded a hs := ⟨(h.load a _).trans hs.1, hs.2⟩
  cleared hs := hs
  serial _ hs := hs
  foreignKeys _ hs := hs
  members _ hs := hs
  reserved _ hs := hs
  hashed _ _ hs _ := hs

/-- A question and its response are one exchange in the transcript. -/
theorem Transcribed.exists_ask (mapping : ContainerMapping) (operation : Operation)
    (sc : Scene α ω) : ∃ response w,
      d.ask mapping operation sc = (response, { sc with world := w }) ∧
        log w = log sc.world ++ [⟨operation, response⟩] :=
  ⟨_, _, rfl, h.generator ⟨d.schema, mapping, d.config, operation⟩ sc.world⟩

/-- For the views of a pair there is one exchange; errors in it end the act. -/
theorem Transcribed.generatePair (id : ContainerId) :
    (d.generatePair id : Act (Scene α ω) _ _).Records log
      fun c r => d.Tells id (fun e => r = .error (.error e)) c := by
  rw [Dictionary.generatePair]
  refine .of_lookup fun pair hpair => .of_lookup fun mapping _ sc => ?_
  obtain ⟨response, w, hask, hlog⟩ := h.exists_ask mapping (.pair id) sc
  refine ⟨[⟨.pair id, response⟩], ?_⟩
  rw [List.flatMap_singleton, List.forall_mem_singleton]
  rcases response with e | made
  · rw [Act.bind_apply_error hask]
    exact ⟨hlog, (List.append_nil _).symm, rfl, fun _ hmade => by cases hmade⟩
  · rw [Act.bind_apply_ok hask]
    -- of a response with errors no warning is recorded
    by_cases he : made.hasErrors
    · rw [if_pos he, Exchange.recorded_of_hasErrors he]
      refine ⟨hlog, (List.append_nil _).symm, rfl, ?_⟩
      rintro _ ⟨⟩ -
      exact ⟨_, ⟨pair, hpair, rfl⟩, rfl⟩
    · rw [if_neg he, Exchange.recorded_of_not_hasErrors he]
      have hviews (_ : Unit) : (Act.ofExcept (monadLift (made.toViews d.schema)) :
          Act (Scene α ω) (Failure Error) _).Silent log := .ofExcept _
      obtain ⟨hlog', hwarnings⟩ := Act.recordWarnings_bind made hviews { sc with world := w }
      refine ⟨hlog'.trans hlog, hwarnings, rfl, ?_⟩
      rintro _ ⟨⟩ herrors
      exact absurd herrors he

/-- For the view of a type there is one exchange, about that type. -/
theorem Transcribed.generateTyped (k : TypeKey) :
    (d.generateTyped k : Act (Scene α ω) _ _).Records log fun c _ => c.operation = .ofType k := by
  rw [Dictionary.generateTyped]
  cases d.schema.mapping.container? k.entitySet.container with
  -- whether or not there is a view among what was made, the warnings are recorded first
  | none => exact Act.Silent.records (.pure _)
  | some mapping =>
    intro sc
    simp only
    obtain ⟨response, w, hask, hlog⟩ := h.exists_ask mapping (.ofType k) sc
    refine ⟨[⟨.ofType k, response⟩], ?_⟩
    rw [List.flatMap_singleton, List.forall_mem_singleton, Act.bind_apply, Act.settled, hask]
    rcases response with (f | e) | made
    · exact ⟨hlog, (List.append_nil _).symm, rfl⟩
    · exact ⟨hlog, (List.append_nil _).symm, rfl⟩
    · by_cases he : made.hasErrors
      · simp only
        rw [if_pos he, Exchange.recorded_of_hasErrors he]
        exact ⟨hlog, (List.append_nil _).symm, trivial⟩
      · simp only
        rw [if_neg he, Exchange.recorded_of_not_hasErrors he]
        cases made.views.get? (.entitySet k.entitySet) with
        | none =>
          have hview (_ : Unit) : (pure none : Act (Scene α ω) Fault (Option View)).Silent log :=
            .pure none
          obtain ⟨hlog', hwarnings⟩ := Act.recordWarnings_bind made hview { sc with world := w }
          exact ⟨hlog'.trans hlog, hwarnings, trivial⟩
        | some body =>
          have hview (_ : Unit) : (do return some (← View.make d.schema (.ofType k) body .runtime) :
              Act (Scene α ω) Fault (Option View)).Silent log :=
            (Act.Silent.ofExcept _).bind fun view => .pure _
          obtain ⟨hlog', hwarnings⟩ := Act.recordWarnings_bind made hview { sc with world := w }
          exact ⟨hlog'.trans hlog, hwarnings, trivial⟩

/-! ## Pairs and types -/

/-- Resolving a pair has exchanges about the pair only. -/
theorem Transcribed.resolvePair (id : ContainerId) :
    (d.resolvePair host id).Records log
      fun c r => d.Tells id (fun e => r = .error (.error e)) c := by
  intro sc
  rw [Dictionary.resolvePair, Act.bind_apply_ok (Act.state_apply sc)]
  cases sc.tables.mode with
  | runtimeGeneration => exact h.generatePair id sc
  | generatedViews =>
    have hsearch : (d.preGenerated host id).Silent log :=
      fun l ds => (h.lasting l ds).preGenerated id
    have hrest (adopted : OrderedMap Extent View) : (do
        if adopted.isEmpty then
          Scene.setMode .runtimeGeneration
          d.generatePair id
        else
          return adopted : Act (Scene α ω) _ _).Records log
        fun c r => d.Tells id (fun e => r = .error (.error e)) c := by
      by_cases he : adopted.isEmpty
      · rw [if_pos he]
        exact Act.Silent.then (fun _ _ => .modify fun _ hs => hs) fun _ => h.generatePair id
      · rw [if_neg he]
        exact Act.Silent.records (.pure adopted)
    exact hsearch.then hrest sc

/-- Computing a pair keeps the error that was told. -/
theorem Transcribed.computePair (id : ContainerId) :
    (d.computePair host id).Records log
      fun c r => d.Tells id (fun e => ∃ n, r = .ok (.error ⟨n, e⟩)) c := by
  have hresolved : (d.resolvePair host id).settled.Records log
      fun c r => d.Tells id (fun e => r = .ok (.error e)) c :=
    (h.resolvePair id).settled fun c r hc => hc.imp fun e he => by rw [he]; rfl
  rw [Dictionary.computePair]
  refine hresolved.bind (fun r => Act.Silent.records fun l ds => ?_) (fun c r hc sc => ?_)
    fun c f hc => hc.imp fun _ he => by cases he
  · cases r with
    | ok views => exact ((h.lasting l ds).issueAll views).bind fun _ => .pure _
    | error e => exact ((h.lasting l ds).issue e).bind fun _ => .pure _
  · refine hc.imp fun e he => ?_
    cases he
    exact ⟨_, rfl⟩

/-- So does the table of pairs, which asks nothing if it has the pair. -/
theorem Transcribed.pairViews (id : ContainerId) :
    (d.pairViews host id).Records log
      fun c r => d.Tells id (fun e => ∃ n, r = .ok (.error ⟨n, e⟩)) c := by
  have hp : d.Insensitive host fun sc => sc.tables.pairs.get? id = none :=
    insensitive_pairs fun pairs => pairs.get? id = none
  have hpairs : d.pairViews host id = Scene.pairs.getOrCompute id (d.computePair host id) := rfl
  rw [hpairs]
  exact (h.computePair id).getOrCompute (hp.computePair (fun _ h => h) id) (fun _ _ => rfl)
    fun _ _ => rfl

/-- A step for the view of a type has exchanges about that type only. -/
theorem Transcribed.getViewOfType (k : TypeKey) :
    (d.getViewOfType k : Act (Scene α ω) _ _).Records log fun c _ => c.operation = .ofType k := by
  have hcompute : (d.computeTyped k : Act (Scene α ω) _ _).Records log
      fun c _ => c.operation = .ofType k := by
    rw [Dictionary.computeTyped]
    refine (h.generateTyped k).bind (fun view => Act.Silent.records fun l ds => ?_)
      (fun _ _ hc _ => hc) fun _ _ hc => hc
    cases view with
    | none => exact .pure _
    | some view => exact ((h.lasting l ds).issue view).bind fun _ => .pure _
  have hp : d.Enduring host fun sc => sc.tables.typed.get? k = none :=
    enduring_typed fun typed => typed.get? k = none
  rw [getViewOfType_eq]
  refine (Act.Silent.ofExcept _).then fun answer => ?_
  cases answer with
  | some answer => exact Act.Silent.records (.pure _)
  | none => exact hcompute.getOrCompute (hp.computeTyped k) (fun _ _ => rfl) fun _ _ => rfl

/-! ## Steps -/

omit h

/-- What the tables have of the exchanges so far: their warnings, and for each pair about which
errors were reported, an error that has all of it. -/
structure Noted (d : Dictionary ω) (heard : List Exchange) (t : Tables) : Prop where
  warnings : t.warnings = heard.flatMap Exchange.recorded
  blamed : ∀ id made, ⟨.pair id, .ok made⟩ ∈ heard → made.hasErrors = true →
    ∃ x, d.Blames id made x.value ∧ t.pairs.get? id = some (.error x)

/-- Nothing was heard, so nothing has to be noted. -/
theorem Noted.nil {t : Tables} (h : t.warnings = []) : d.Noted [] t :=
  ⟨h, fun _ _ hmem => (List.not_mem_nil hmem).elim⟩

/-- What was noted stays noted, and the new exchanges are noted if their warnings were recorded and
their errors are kept. -/
theorem Noted.append {heard new : List Exchange} {t t' : Tables} (h : d.Noted heard t)
    (hwithin : t.Within t') (hwarnings : t'.warnings = t.warnings ++ new.flatMap Exchange.recorded)
    (hblamed : ∀ id made, ⟨.pair id, .ok made⟩ ∈ new → made.hasErrors = true →
      ∃ x, d.Blames id made x.value ∧ t'.pairs.get? id = some (.error x)) :
    d.Noted (heard ++ new) t' where
  warnings := by rw [hwarnings, h.warnings, List.flatMap_append]
  blamed id made hmem herrors := by
    rcases List.mem_append.1 hmem with hmem | hmem
    · obtain ⟨x, hblames, hx⟩ := h.blamed id made hmem herrors
      exact ⟨x, hblames, hwithin.pairs id _ hx⟩
    · exact hblamed id made hmem herrors

/-- Of what a step adds to the transcript it records the warnings, and if that was an exchange about
a pair in which errors were reported, the tables have an error for the pair. -/
theorem Transcribed.perform_records (h : d.Transcribed host log) (step : Step) (sc : Scene α ω) :
    let sc' := (d.perform host step sc).2
    ∃ new, log sc'.world = log sc.world ++ new ∧
      sc'.tables.warnings = sc.tables.warnings ++ new.flatMap Exchange.recorded ∧
      ∀ id made, ⟨.pair id, .ok made⟩ ∈ new → made.hasErrors = true →
        ∃ x, d.Blames id made x.value ∧ sc'.tables.pairs.get? id = some (.error x) := by
  -- a step resolves a pair, or makes the view of a type, or has nothing to ask
  by_cases hneeds : ∃ id, d.Needs step id
  · obtain ⟨id, hneeds⟩ := hneeds
    obtain ⟨rest, hrest, hkeeps⟩ := d.exists_rest host hneeds
    obtain ⟨new, hlog, hwarnings, htells⟩ := h.pairViews id sc
    rw [hrest, Act.bind_apply, Act.widen, Act.mapFailure]
    rcases hrun : d.pairViews host id sc with ⟨f | r, sc'⟩ <;>
      rw [hrun] at hlog hwarnings htells
    · refine ⟨new, hlog, hwarnings, fun id' made hmem herrors => ?_⟩
      obtain ⟨e, -, n, hn⟩ := (htells _ hmem).blamed made rfl herrors
      cases hn
    · -- what the step does with the views of the pair is bookkeeping
      have hkept := (hkeeps _ (h.lasting _ _).toSteadfast r sc' ⟨rfl, rfl⟩).1
      have hp : d.Insensitive host fun sc => sc.tables.pairs.get? id = some r :=
        insensitive_pairs fun pairs => pairs.get? id = some r
      have hget := (hkeeps _ hp.toSteadfast r sc' (Act.get?_of_getOrCompute hrun)).1
      refine ⟨new, hkept.1.trans hlog, hkept.2.trans hwarnings, fun id' made hmem herrors => ?_⟩
      obtain ⟨hoperation, hblamed⟩ := htells _ hmem
      cases hoperation
      obtain ⟨e, hblames, n, hn⟩ := hblamed made rfl herrors
      cases hn
      exact ⟨⟨n, e⟩, hblames, hget⟩
  · by_cases htyped : ∃ k, step = .getViewOfType k
    · obtain ⟨k, rfl⟩ := htyped
      have hview : ((d.getViewOfType k).widen :
          Act (Scene α ω) (Failure (Published Error)) _).Records log
            fun c _ => c.operation = .ofType k := (h.getViewOfType k).widen fun _ _ hc => hc
      have hrecords : (d.perform host (.getViewOfType k)).Records log
          fun c _ => c.operation = .ofType k := by
        refine hview.bind (fun view => ?_) (fun _ _ hc _ => hc) fun _ _ hc => hc
        cases view <;> exact Act.Silent.records (.pure _)
      obtain ⟨new, hlog, hwarnings, hfits⟩ := hrecords sc
      exact ⟨new, hlog, hwarnings, fun id made hmem => by cases hfits _ hmem⟩
    · have hsilent : (d.perform host step).Silent log := fun l ds =>
        (h.lasting l ds).perform step (fun id hid => absurd ⟨id, hid⟩ hneeds)
          fun k hk => absurd ⟨k, hk⟩ htyped
      have hnothing : (d.perform host step).Records log fun _ _ => False := hsilent.records
      obtain ⟨new, hlog, hwarnings, hfits⟩ := hnothing sc
      exact ⟨new, hlog, hwarnings, fun id made hmem => (hfits _ hmem).elim⟩

/-- A step that needs a pair hands out the error that there is for it. -/
theorem perform_of_refused {step : Step} {x : Published Error} {sc' : Scene α ω}
    (hneeds : d.Needs step id) (hrun : d.pairViews host id sc = (.ok (.error x), sc')) :
    d.perform host step sc = (.error (.error x), sc') := by
  cases step with
  | getView e =>
    rw [Dictionary.perform, getView_of_route hneeds.route, bind_assoc,
      Act.widen_bind_of_ok hrun]
    rfl
  | exportViews c =>
    rw [Dictionary.perform, exportViews_of_canonical hneeds.canonical, bind_assoc,
      Act.widen_bind_of_ok hrun]
    rfl
  | _ => cases hneeds

/-- Without a fault, a step that needs a pair leaves it resolved, and ends with its error if it
has one. -/
theorem exists_resolved (host : Host α ω) (sc : Scene α ω) {step : Step}
    (hneeds : d.Needs step id)
    (hquiet : ∀ f, (d.perform host step sc).1 ≠ .error (.fault f)) :
    ∃ r, (d.perform host step sc).2.tables.pairs.get? id = some r ∧
      ∀ x, r = .error x → (d.perform host step sc).1 = .error (.error x) := by
  obtain ⟨rest, hrest, hkeeps⟩ := d.exists_rest host hneeds
  rw [hrest] at hquiet
  obtain ⟨r, sc', hrun⟩ := Act.exists_ok_of_widen_bind hquiet
  have hp : d.Insensitive host fun sc => sc.tables.pairs.get? id = some r :=
    insensitive_pairs fun pairs => pairs.get? id = some r
  have hget := (hkeeps _ hp.toSteadfast r sc' (Act.get?_of_getOrCompute hrun)).1
  refine ⟨r, ?_, ?_⟩
  · rw [hrest, Act.widen_bind_of_ok hrun]
    exact hget
  · rintro x rfl
    rw [perform_of_refused hneeds hrun]

/-- A step notes what it adds to the transcript, however it ends. -/
theorem Transcribed.perform (h : d.Transcribed host log) {heard : List Exchange}
    (hnoted : d.Noted heard sc.tables) (step : Step) :
    ∃ new, log (d.perform host step sc).2.world = log sc.world ++ new ∧
      d.Noted (heard ++ new) (d.perform host step sc).2.tables := by
  obtain ⟨new, hlog, hwarnings, hblamed⟩ := h.perform_records step sc
  have hwithin := (d.keeps_published host sc.tables step sc (.refl _)).1
  exact ⟨new, hlog, hnoted.append hwithin hwarnings hblamed⟩

end Dictionary

end QueryViews
