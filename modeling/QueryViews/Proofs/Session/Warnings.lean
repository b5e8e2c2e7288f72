import QueryViews.Proofs.Dictionary.Warnings
import QueryViews.Proofs.Session.Calls
import QueryViews.Proofs.Session.Shipment

/-!
# The warnings of a session

In a run from a new dictionary its warnings are those of the responses of its generator that came
without errors, one response after the other (`Session.Run.warnings_recorded`). The responses are
read off a transcript in the world (`Session.Transcribes`), which is a log of the calls if one looks
at the questions only (`Transcribes.logs`); so each call has one response in it.
-/

namespace QueryViews

variable {α ω : Type}

namespace Session

/-- A transcript in the world of what the generator of the dictionary at a place is asked for and
what it responds: that generator adds to it, and nothing else touches it. -/
structure Transcribes (s : Session α ω) (place : Nat) (log : ω → List Exchange) : Prop where
  scan : ∀ w, log (s.host.scan w).2 = log w
  load : ∀ a w, log (s.host.load a w).2 = log w
  own : ∀ d tables, s.dictionaries[place]? = some (d, tables) →
    ∀ q w, log (d.generator q w).2 = log w ++ [⟨q.operation, (d.generator q w).1⟩]
  others : ∀ j d tables, j ≠ place → s.dictionaries[j]? = some (d, tables) →
    ∀ q w, log (d.generator q w).2 = log w

variable {s₀ s s' : Session α ω} {place : Nat} {log : ω → List Exchange} {events : List Event}
  {heard : List Exchange} {d : Dictionary ω} {t t₀ : Tables} {schema : Schema} {config : Config}
  {shares : Bool}

/-- The questions of a transcript are a log of the calls. -/
theorem Transcribes.logs (h : s.Transcribes place log) :
    s.Logs place fun w => (log w).map Exchange.operation where
  scan w := congrArg (List.map Exchange.operation) (h.scan w)
  load a w := congrArg (List.map Exchange.operation) (h.load a w)
  own d tables hd q w := by
    simp only [h.own d tables hd q w, List.map_append, List.map_cons, List.map_nil]
  others j d tables hj hd q w :=
    congrArg (List.map Exchange.operation) (h.others j d tables hj hd q w)

/-- The transcript of a session is one of the dictionary at the place. -/
theorem Transcribes.transcribed (h : s.Transcribes place log)
    (hd : s.dictionaries[place]? = some (d, t)) : d.Transcribed (s.host.seenBy d) log :=
  ⟨(seen_log h.scan h.load d).1, (seen_log h.scan h.load d).2, h.own d t hd⟩

/-- A transcript stays one along a run. -/
theorem Transcribes.of_run (h : s₀.Transcribes place log) (run : s₀.Run events s) :
    s.Transcribes place log where
  scan := by
    rw [run.unmoved.1]
    exact h.scan
  load := by
    rw [run.unmoved.1]
    exact h.load
  own d tables hd := by
    obtain ⟨tables₀, hd₀⟩ := run.unmoved.2 place d tables hd
    exact h.own d tables₀ hd₀
  others j d tables hj hd := by
    obtain ⟨tables₀, hd₀⟩ := run.unmoved.2 j d tables hd
    exact h.others j d tables₀ hj hd₀

/-! ## One step -/

/-- What a step of any dictionary adds to the transcript is noted by the dictionary at the place. -/
theorem Transcribes.step (h : s.Transcribes place log) (hd : s.dictionaries[place]? = some (d, t))
    (hnoted : d.Noted heard t) {acting : Nat} {step : Step}
    {r : Except (Failure (Published Error)) Answer} (hstep : s.step acting step = some (r, s')) :
    ∃ new t', log s'.world = log s.world ++ new ∧ s'.dictionaries[place]? = some (d, t') ∧
      d.Noted (heard ++ new) t' := by
  obtain ⟨d', t₁, hd', -, rfl⟩ := step_cases hstep
  rw [getElem?_afterStep hd']
  by_cases hplace : acting = place
  · subst hplace
    cases hd.symm.trans hd'
    rw [if_pos rfl]
    have hnoted : d.Noted heard (s.sceneOf d t).tables := hnoted
    obtain ⟨new, hlog, hnoted'⟩ := (h.transcribed hd).perform hnoted step
    exact ⟨new, _, hlog, rfl, hnoted'⟩
  · rw [if_neg hplace]
    obtain ⟨hscan, hload⟩ := seen_log h.scan h.load d'
    have hsame := Dictionary.perform_log hscan hload (h.others acting d' t₁ hplace hd') step
      (s.sceneOf d' t₁)
    exact ⟨[], t, hsame.trans (List.append_nil _).symm, hd, (List.append_nil heard).symm ▸ hnoted⟩

/-- A step that spares a call leaves the transcript and the warnings alone. -/
theorem Transcribes.step_spared (h : s.Transcribes place log)
    (hd : s.dictionaries[place]? = some (d, t)) (hnoted : d.Noted heard t) {earlier : List Step}
    (hanswered : ∀ d t, s.dictionaries[place]? = some (d, t) → d.Answered earlier t) {e : Event}
    (hspared : d.Spared (s.host.seenBy d) earlier (s.sceneOf d t) e.step)
    (hstep : s.step e.place e.step = some (e.outcome.mapError .error, s')) :
    log s'.world = log s.world ∧
      ∃ t', s'.dictionaries[place]? = some (d, t') ∧ t'.warnings = t.warnings := by
  have hnot (call : Operation) : ¬ s.Calls place earlier e.step call := by
    rintro ⟨d', t', hd', hcall⟩
    cases hd.symm.trans hd'
    exact hspared.not_calls call hcall
  have hsame := (h.logs.step hanswered hstep).2 fun call _ => hnot call
  obtain ⟨new, t', hlog, hd', hnoted'⟩ := h.step hd hnoted hstep
  obtain rfl : new = [] := by
    rw [hlog, List.map_append, List.append_right_eq_self, List.map_eq_nil_iff] at hsame
    exact hsame
  rw [List.append_nil] at hlog hnoted'
  exact ⟨hlog, t', hd', hnoted'.warnings.trans hnoted.warnings.symm⟩

/-! ## Whole runs -/

/-- In a run a dictionary notes what is added to the transcript. -/
theorem Transcribes.noted (h : s₀.Transcribes place log)
    (hd : s₀.dictionaries[place]? = some (d, t₀)) (hwarnings : t₀.warnings = [])
    (run : s₀.Run events s) :
    ∃ heard t, log s.world = log s₀.world ++ heard ∧ s.dictionaries[place]? = some (d, t) ∧
      d.Noted heard t := by
  induction run with
  | start => exact ⟨[], t₀, (List.append_nil _).symm, hd, .nil hwarnings⟩
  | @step events s s' e run hstep ih =>
    obtain ⟨heard, t, hlog, hd, hnoted⟩ := ih
    obtain ⟨new, t', hlog', hd', hnoted'⟩ := (h.of_run run).step hd hnoted hstep
    exact ⟨heard ++ new, t', by rw [hlog', hlog, List.append_assoc], hd', hnoted'⟩

/-- In a run every event that needed a pair ended with the error that the pair has in the end, if
it has one. -/
theorem Run.resolved (run : s₀.Run events s) (hd : s₀.dictionaries[place]? = some (d, t₀)) :
    ∃ t, s.dictionaries[place]? = some (d, t) ∧
      ∀ e ∈ events, e.place = place → ∀ id, d.Needs e.step id →
        ∃ r, t.pairs.get? id = some r ∧ ∀ x, r = .error x → e.outcome = .error x := by
  induction run with
  | start => exact ⟨t₀, hd, List.forall_mem_nil _⟩
  | @step events s s' e run hstep ih =>
    obtain ⟨t, hd, hearlier⟩ := ih
    obtain ⟨t', hd', hcases⟩ := step_tables hstep hd
    refine ⟨t', hd', fun e' he' hplace id hneeds => ?_⟩
    rcases hcases with ⟨-, sc, sc', rfl, rfl, hperform⟩ | ⟨hother, rfl⟩
    · rcases List.mem_append.1 he' with he' | he'
      · obtain ⟨r, hr, houtcome⟩ := hearlier e' he' hplace id hneeds
        -- what was resolved before this event stays so
        have hwithin := (d.keeps_published (s.host.seenBy d) sc.tables e.step sc (.refl _)).1
        rw [hperform] at hwithin
        exact ⟨r, hwithin.pairs id r hr, houtcome⟩
      · obtain rfl := List.mem_singleton.1 he'
        have hresolved := Dictionary.exists_resolved (s.host.seenBy d) sc hneeds
        rw [hperform] at hresolved
        obtain ⟨r, hr, houtcome⟩ := hresolved e'.outcome_ne_fault
        refine ⟨r, hr, fun x hx => ?_⟩
        have h := houtcome x hx
        rcases he : e'.outcome with y | answer <;> rw [he] at h <;> cases h
        rfl
    · rcases List.mem_append.1 he' with he' | he'
      · exact hearlier e' he' hplace id hneeds
      · exact absurd (List.mem_singleton.1 he' ▸ hplace) hother

end Session

/-! ## Two ports and a strict generator -/

namespace Ports

/-- A warning about the north. -/
def unreachable : Diagnostic := ⟨.warning, 3002, "unreachable fragment"⟩

/-- An error about the south. -/
def clash : Diagnostic := ⟨.error, 3034, "two entity types map to the same rows"⟩

/-- The response of a generator that makes the view of the north, and refuses all else. -/
def strictResponse : Operation → Except (Failure Error) Generated
  | .pair ⟨0⟩ => .ok ⟨.ofList [(ships, .text "North")], [unreachable]⟩
  | _ => .ok ⟨.empty, [unreachable, clash]⟩

/-- Responds, and keeps a transcript. -/
def strict : Generator (List Exchange) := fun q heard =>
  (strictResponse q.operation, heard ++ [⟨q.operation, strictResponse q.operation⟩])

/-- A dictionary of the ports with that generator, which does not search for artifacts. -/
def strictDictionary : Dictionary (List Exchange) :=
  ⟨twoPorts, ⟨false, true, true⟩, strict, true, .empty⟩

/-- A session of that dictionary, with the transcript for a world. -/
def strictSession : Session Unit (List Exchange) where
  host := ⟨fun _ => "Views", pure [()], fun _ => pure []⟩
  dictionaries := [(strictDictionary, { tables with mode := .runtimeGeneration })]
  cache := none
  world := []

/-- The error for the south. -/
def refusal : Published Error :=
  ⟨1, .ofKind (.mapping "view generation failed for `South:SouthDb`" [unreachable, clash])⟩

/-- Questions about the north, then about the south, and about both again. -/
def strictEvents : List Event := [
  ⟨0, .getView ships, .ok (.view ⟨0, .ofText (.extent ships) "North" .runtime⟩)⟩,
  ⟨0, .getView (.table ⟨1⟩), .error refusal⟩,
  ⟨0, .exportViews ⟨1⟩, .error refusal⟩,
  ⟨0, .getView ships, .ok (.view ⟨0, .ofText (.extent ships) "North" .runtime⟩)⟩,
  ⟨0, .warnings, .ok (.warnings [unreachable])⟩]

theorem strict_transcribes : strictSession.Transcribes 0 id where
  scan _ := rfl
  load _ _ := rfl
  own := by
    rintro d tables ⟨⟩ q w
    rfl
  others := by
    intro j d tables hj hd q w
    rcases j with _ | _
    · exact absurd rfl hj
    · cases hd

theorem strict_starts :
    strictSession.Starts 0 strictDictionary twoPorts ⟨false, true, true⟩ true :=
  ⟨_, _, rfl, rfl⟩

/-- The generator is asked about each port once. -/
theorem strict_run : ∃ s, strictSession.Run strictEvents s ∧
    s.world = [⟨.pair ⟨0⟩, strictResponse (.pair ⟨0⟩)⟩, ⟨.pair ⟨1⟩, strictResponse (.pair ⟨1⟩)⟩] :=
  ⟨_, .step (.step (.step (.step (.step .start rfl) rfl) rfl) rfl) rfl, rfl⟩

end Ports

/-! ## Exactly the warnings -/

namespace Session

variable {s₀ s : Session α ω} {place : Nat} {log : ω → List Exchange} {events : List Event}
  {d : Dictionary ω} {schema : Schema} {config : Config} {shares : Bool}

/-- **Warnings are recorded exactly.** Let there be a transcript of what the generator of a new
dictionary is asked for and what it responds. In every run, of any dictionaries in any order,

* the run adds to the transcript the calls of its events, each of them once, with a response each,
  and the dictionary has the warnings of the responses without errors, in their order;
* if errors were reported for a pair, every event that needed the pair ended with one error,
  which has all the diagnostics of the response in their order;
* asked for its warnings, the dictionary answers with these; and a step that is served from a table,
  by the user, by a foreign key or from artifacts adds none. -/
theorem Run.warnings_recorded (hlog : s₀.Transcribes place log)
    (hstart : s₀.Starts place d schema config shares) (run : s₀.Run events s) :
    ∃ heard t, log s.world = log s₀.world ++ heard ∧ s.dictionaries[place]? = some (d, t) ∧
      t.warnings = heard.flatMap Exchange.recorded ∧
      (heard.map Exchange.operation).Nodup ∧
      (∀ call, call ∈ heard.map Exchange.operation ↔ s₀.Made place events call) ∧
      (∀ id made, ⟨.pair id, .ok made⟩ ∈ heard → made.hasErrors = true →
        ∃ x, d.Blames id made x.value ∧ ∀ e ∈ events, e.place = place →
          d.Needs e.step id → e.outcome = .error x) ∧
      ∀ (e : Event) (s' : Session α ω), e.place = place →
        s.step e.place e.step = some (e.outcome.mapError .error, s') →
        (e.step = .warnings → e.outcome = .ok (.warnings (heard.flatMap Exchange.recorded))) ∧
        (d.Spared (s.host.seenBy d) (stepsAt place events) (s.sceneOf d t) e.step →
          log s'.world = log s.world ∧
            ∃ t', s'.dictionaries[place]? = some (d, t') ∧ t'.warnings = t.warnings) := by
  obtain ⟨generator, t₀, hd₀, hnew⟩ := hstart
  have hwarnings₀ : t₀.warnings = [] := by
    cases hnew
    rfl
  obtain ⟨heard, t, hheard, hd, hnoted⟩ := hlog.noted hd₀ hwarnings₀ run
  -- a transcript is a log of calls too, so what is known of calls is known of it
  obtain ⟨made, hmade, hnodup, hmem⟩ := hlog.logs.made_of_run ⟨generator, t₀, hd₀, hnew⟩ run
  obtain rfl : heard.map Exchange.operation = made := by
    simp only [hheard, List.map_append] at hmade
    exact List.append_cancel_left hmade
  refine ⟨heard, t, hheard, hd, hnoted.warnings, hnodup, hmem, fun id made hmade herrors => ?_,
    fun e s' hplace hstep => ⟨fun hwarnings => ?_, fun hspared => ?_⟩⟩
  · obtain ⟨x, hblames, hx⟩ := hnoted.blamed id made hmade herrors
    obtain ⟨t', ht', hresolved⟩ := run.resolved hd₀
    cases hd.symm.trans ht'
    refine ⟨x, hblames, fun e he hplace hneeds => ?_⟩
    obtain ⟨r, hr, houtcome⟩ := hresolved e he hplace id hneeds
    exact houtcome x (Option.some.inj (hr.symm.trans hx))
  · obtain ⟨d', t', hd', houtcome, -⟩ := step_cases hstep
    rw [hplace, hd] at hd'
    cases hd'
    rw [hwarnings] at houtcome
    change _ = Except.ok (Answer.warnings t.warnings) at houtcome
    rw [hnoted.warnings] at houtcome
    rcases he : e.outcome with x | answer <;> rw [he] at houtcome <;> cases houtcome
    rfl
  · exact (hlog.of_run run).step_spared hd hnoted (run.answered ⟨generator, t₀, hd₀, hnew⟩) hspared
      hstep

/-- The strict generator warns once, and what it has against the south is told whenever the south is
asked for. -/
theorem ports_warnings : ∃ s t, Ports.strictSession.Run Ports.strictEvents s ∧
    s.dictionaries[0]? = some (Ports.strictDictionary, t) ∧ t.warnings = [Ports.unreachable] ∧
    ∃ x : Published Error, x.value.diagnostics = [Ports.unreachable, Ports.clash] ∧
      ∀ e ∈ Ports.strictEvents, e.place = 0 →
        Ports.strictDictionary.Needs e.step ⟨1⟩ → e.outcome = .error x := by
  obtain ⟨s, run, hworld⟩ := Ports.strict_run
  obtain ⟨heard, t, hheard, hd, hwarnings, -, -, hblamed, -⟩ :=
    run.warnings_recorded Ports.strict_transcribes Ports.strict_starts
  obtain rfl : s.world = heard := hheard
  rw [hworld] at hwarnings hblamed
  obtain ⟨x, hx, hfailed⟩ := hblamed ⟨1⟩ _ (List.mem_cons_of_mem _ (List.mem_singleton_self _)) rfl
  exact ⟨s, t, run, hd, hwarnings, x, hx.diagnostics_eq, hfailed⟩

end Session

end QueryViews
