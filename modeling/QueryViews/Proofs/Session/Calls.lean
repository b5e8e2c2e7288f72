import QueryViews.Proofs.Dictionary.Calls
import QueryViews.Proofs.Session.RoundTrip

/-!
# What a session asks a generator

In a run from a new dictionary its generator is asked for each pair of containers at most once, and
for the view of a type at most once: by the first step that needs it, and only if neither the user
nor a foreign key nor an artifact spares it the question (`Session.Run.calls_logged`). Which pair a
step needs is said of its extent (`Dictionary.Needs`), not of the way in which it is looked up.

What was asked is read off a log in the world (`Session.Logs`). The state of the world is anything
at all, so any generator can be given one.
-/

namespace QueryViews

variable {α ω : Type}

namespace Session

/-- A log in the world of what the generator of the dictionary at a place is asked for: that
generator adds to it, and nothing else touches it. -/
structure Logs (s : Session α ω) (place : Nat) (log : ω → List Operation) : Prop where
  scan : ∀ w, log (s.host.scan w).2 = log w
  load : ∀ a w, log (s.host.load a w).2 = log w
  own : ∀ d tables, s.dictionaries[place]? = some (d, tables) →
    ∀ q w, log (d.generator q w).2 = log w ++ [q.operation]
  others : ∀ j d tables, j ≠ place → s.dictionaries[j]? = some (d, tables) →
    ∀ q w, log (d.generator q w).2 = log w

/-- A step of the dictionary at a place, after some steps earlier, makes a call of its generator. -/
def Calls (s : Session α ω) (place : Nat) (earlier : List Step) (step : Step) (call : Operation) :
    Prop :=
  ∃ d tables, s.dictionaries[place]? = some (d, tables) ∧
    d.Calls (s.host.seenBy d) earlier (s.sceneOf d tables) step call

/-- Among the events of a run there is one at a place that makes a call. -/
def Made (s₀ : Session α ω) (place : Nat) (events : List Event) (call : Operation) : Prop :=
  ∃ before e after s, events = before ++ e :: after ∧ s₀.Run before s ∧ e.place = place ∧
    s.Calls place (stepsAt place before) e.step call

variable {s₀ s s' : Session α ω} {place : Nat} {log : ω → List Operation} {events : List Event}
  {d : Dictionary ω} {tables : Tables} {schema : Schema} {config : Config} {shares : Bool}

/-! ## One step -/

/-- Whatever a dictionary sees of a host leaves a log alone that the host leaves alone. -/
theorem seen_log {β : Type} {log : ω → β} (hscan : ∀ w, log (s.host.scan w).2 = log w)
    (hload : ∀ a w, log (s.host.load a w).2 = log w) (d : Dictionary ω) :
    (∀ w, log ((s.host.seenBy d).scan w).2 = log w) ∧
      ∀ a w, log ((s.host.seenBy d).load a w).2 = log w := by
  rw [Host.seenBy]
  by_cases hshares : d.sharesAssemblies
  · rw [if_pos hshares]
    exact ⟨hscan, hload⟩
  · rw [if_neg hshares]
    exact ⟨fun _ => rfl, hload⟩

/-- The log of a session is one of the dictionary at the place. -/
theorem Logs.logged (h : s.Logs place log) (hd : s.dictionaries[place]? = some (d, tables)) :
    d.Logged (s.host.seenBy d) log :=
  ⟨(seen_log h.scan h.load d).1, (seen_log h.scan h.load d).2, h.own d tables hd⟩

/-- The dictionaries at other places leave the log alone. -/
theorem Logs.perform_other (h : s.Logs place log) {j : Nat} (hj : j ≠ place)
    (hd : s.dictionaries[j]? = some (d, tables)) (step : Step) (sc : Scene α ω) :
    log (d.perform (s.host.seenBy d) step sc).2.world = log sc.world := by
  obtain ⟨hscan, hload⟩ := seen_log h.scan h.load d
  exact Dictionary.perform_log hscan hload (h.others j d tables hj hd) step sc

/-- The log stays one along a run. -/
theorem Logs.of_run (h : s₀.Logs place log) (run : s₀.Run events s) : s.Logs place log where
  scan := by
    rw [run.unmoved.1]
    exact h.scan
  load := by
    rw [run.unmoved.1]
    exact h.load
  own d tables hd := by
    obtain ⟨tables₀, hd₀⟩ := run.unmoved.2 place d tables hd
    exact h.own d tables₀ hd₀
  others j d tables hj hd := by
    obtain ⟨tables₀, hd₀⟩ := run.unmoved.2 j d tables hd
    exact h.others j d tables₀ hj hd₀

/-- A step at the place adds to the log the call that it makes, and no other step does. -/
theorem Logs.step (h : s.Logs place log) {earlier : List Step} {e : Event}
    (hanswered : ∀ d tables, s.dictionaries[place]? = some (d, tables) → d.Answered earlier tables)
    (hstep : s.step e.place e.step = some (e.outcome.mapError .error, s')) :
    (∀ call, e.place = place → s.Calls place earlier e.step call →
        log s'.world = log s.world ++ [call]) ∧
      ((∀ call, e.place = place → ¬ s.Calls place earlier e.step call) →
        log s'.world = log s.world) := by
  obtain ⟨d, tables, hd, houtcome, rfl⟩ := step_cases hstep
  by_cases hplace : e.place = place
  · subst hplace
    have hquiet : ∀ f, (d.perform (s.host.seenBy d) e.step (s.sceneOf d tables)).1 ≠
        .error (.fault f) := by
      rw [← houtcome]
      exact e.outcome_ne_fault
    obtain ⟨hadded, hsame⟩ :=
      (h.logged hd).perform (s.sceneOf d tables) (hanswered d tables hd) hquiet
    refine ⟨fun call _ hcall => ?_, fun hn => hsame fun call hcall => ?_⟩
    · obtain ⟨d', tables', hd', hcall⟩ := hcall
      rw [hd] at hd'
      cases hd'
      exact hadded call hcall
    · exact hn call rfl ⟨d, tables, hd, hcall⟩
  · exact ⟨fun _ h => absurd h hplace, fun _ => h.perform_other hplace hd e.step _⟩

/-! ## Whole runs -/

/-- Where a run leads is settled by its events. -/
theorem Run.unique (run : s₀.Run events s) (run' : s₀.Run events s') : s = s' := by
  induction run generalizing s' with
  | start =>
    generalize h : ([] : List Event) = events at run'
    cases run' with
    | start => rfl
    | step => simp at h
  | @step events s s₁ e run hstep ih =>
    generalize h : events ++ [e] = events' at run'
    cases run' with
    | start => simp at h
    | step run' hstep' =>
      obtain ⟨rfl, hlast⟩ := List.append_inj' h rfl
      cases hlast
      cases ih run'
      rw [hstep] at hstep'
      cases hstep'
      rfl

/-- The dictionary that is new at a place is there all along. -/
theorem Run.dictionary_eq (run : s₀.Run events s) (hstart : s₀.Starts place d schema config shares)
    {d' : Dictionary ω} {tables : Tables} (hd : s.dictionaries[place]? = some (d', tables)) :
    d' = d := by
  obtain ⟨-, tables₀, hd₀, -⟩ := hstart
  obtain ⟨tables₁, hd₁⟩ := run.unmoved.2 place d' tables hd
  cases hd₀.symm.trans hd₁
  rfl

/-- In a run from a new dictionary its tables have what the steps at its place asked for. -/
theorem Run.answered (run : s₀.Run events s) (hstart : s₀.Starts place d schema config shares)
    (d' : Dictionary ω) (tables : Tables) (hd : s.dictionaries[place]? = some (d', tables)) :
    d'.Answered (stepsAt place events) tables := by
  obtain ⟨generator, tables₀, hd₀, hstart⟩ := hstart
  have hanswered₀ : d.Answered [] tables₀ := by
    cases hstart
    exact Dictionary.answered_start rfl rfl
  obtain ⟨-, tables', hd', hanswered⟩ := run.invariant_steps (C := fun _ => True)
    (P := d.Answered) hd₀ trivial hanswered₀ (fun _ _ _ _ _ => trivial)
    fun earlier step sc _ _ h hquiet => h.perform hquiet
  rw [hd] at hd'
  cases hd'
  exact hanswered

/-- The calls made in a run with one event more. -/
theorem made_append_iff (run : s₀.Run events s) (e : Event) (call : Operation) :
    s₀.Made place (events ++ [e]) call ↔ s₀.Made place events call ∨
      e.place = place ∧ s.Calls place (stepsAt place events) e.step call := by
  constructor
  · rintro ⟨before, e', after, s₁, hevents, run', hplace, hcall⟩
    rcases append_singleton_eq_append_cons hevents with ⟨rfl, rfl, rfl⟩ | ⟨after', rfl, hevents'⟩
    · cases run.unique run'
      exact .inr ⟨hplace, hcall⟩
    · exact .inl ⟨before, e', after', s₁, hevents', run', hplace, hcall⟩
  · rintro (⟨before, e', after, s₁, rfl, run', hplace, hcall⟩ | ⟨hplace, hcall⟩)
    · exact ⟨before, e', after ++ [e], s₁, by simp, run', hplace, hcall⟩
    · exact ⟨events, e, [], s, rfl, run, hplace, hcall⟩

/-- A call that was made is not made again. -/
theorem Calls.not_made {step : Step} {call : Operation} (run : s₀.Run events s)
    (hcall : s.Calls place (stepsAt place events) step call) : ¬ s₀.Made place events call := by
  rintro ⟨before, e, after, s₁, rfl, run₁, hplace, d₁, tables₁, hd₁, hearlier⟩
  obtain ⟨d, tables, hd, hcall⟩ := hcall
  -- the dictionary at a place stays the same
  obtain rfl : d = d₁ := by
    obtain ⟨t, ht⟩ := run.unmoved.2 place d tables hd
    obtain ⟨t₁, ht₁⟩ := run₁.unmoved.2 place d₁ tables₁ hd₁
    rw [ht] at ht₁
    cases ht₁
    rfl
  have hmem : e.step ∈ stepsAt place (before ++ e :: after) :=
    List.mem_filterMap.2 ⟨e, by simp, if_pos hplace⟩
  generalize e.step = step₁ at hearlier hmem
  cases hcall with
  | pair hneeds hfirst =>
    cases hearlier with
    | pair hneeds₁ => exact hfirst step₁ hmem hneeds₁
  | ofType hfirst =>
    cases hearlier with
    | ofType => exact hfirst hmem

end Session

/-! ## A shop with a log -/

namespace Shop

/-- Makes the view of one set, and keeps a log of what it is asked for. -/
def keen : Generator (List Operation) := fun q calls => (.ok generated, calls ++ [q.operation])

/-- A dictionary of the shop with that generator. -/
def keenDictionary : Dictionary (List Operation) :=
  ⟨schema "Item" "Tag", ⟨true, true, true⟩, keen, true, .empty⟩

/-- Two dictionaries, of which the second keeps no log. -/
def keenSession : Session Unit (List Operation) where
  host := ⟨fun _ => "Views", pure [()], fun _ => pure []⟩
  dictionaries := [(keenDictionary, tables),
    ({ keenDictionary with generator := fun _ => pure generated }, tables)]
  cache := none
  world := []

/-- The items, without what is derived from them. -/
def itemsOnly : TypeKey := ⟨⟨⟨0⟩, 0⟩, ⟨0⟩, false⟩

/-- What happens in the shop, and after that a question about a type. -/
def keenEvents : List Event :=
  events ++ [⟨0, .getViewOfType itemsOnly,
    .ok (.view ⟨1, .ofText (.ofType itemsOnly) "items" .runtime⟩)⟩]

theorem keen_logs : keenSession.Logs 0 id where
  scan _ := rfl
  load _ _ := rfl
  own := by
    rintro d tables ⟨⟩ q w
    rfl
  others := by
    intro j d tables hj hd q w
    rcases j with _ | _ | _
    · exact absurd rfl hj
    · cases hd
      rfl
    · cases hd

/-- The dictionary at the first place is new. -/
theorem keen_starts :
    keenSession.Starts 0 keenDictionary (schema "Item" "Tag") ⟨true, true, true⟩ true :=
  ⟨_, _, rfl, rfl⟩

end Shop

namespace Session

variable {s₀ s : Session α ω} {place : Nat} {log : ω → List Operation} {events : List Event}
  {d : Dictionary ω} {schema : Schema} {config : Config} {shares : Bool}

/-- A run adds exactly the calls of its events to the log, each of them once. -/
theorem Logs.made_of_run (hlogs : s₀.Logs place log)
    (hstart : s₀.Starts place d schema config shares) (run : s₀.Run events s) :
    ∃ made : List Operation, log s.world = log s₀.world ++ made ∧ made.Nodup ∧
      ∀ call, call ∈ made ↔ s₀.Made place events call := by
  induction run with
  | start =>
    refine ⟨[], (List.append_nil _).symm, .nil, fun call => ⟨fun h => (by cases h), ?_⟩⟩
    rintro ⟨before, e, after, s, hevents, -⟩
    cases before <;> cases hevents
  | @step events s s' e run hstep ih =>
    obtain ⟨made, hmade, hnodup, hmem⟩ := ih
    obtain ⟨hadded, hsame⟩ := (hlogs.of_run run).step (run.answered hstart) hstep
    by_cases hcall : ∃ call, e.place = place ∧ s.Calls place (stepsAt place events) e.step call
    · obtain ⟨call, hplace, hcall⟩ := hcall
      refine ⟨made ++ [call], ?_, ?_, fun call' => ?_⟩
      · rw [hadded call hplace hcall, hmade, List.append_assoc]
      · rw [List.nodup_append_comm]
        exact List.nodup_cons.2 ⟨fun h => hcall.not_made run ((hmem call).1 h), hnodup⟩
      · -- what the log has more tells which call the event made
        rw [made_append_iff run, List.mem_append, List.mem_singleton, hmem call']
        refine or_congr_right ⟨?_, fun ⟨_, hcall'⟩ => ?_⟩
        · rintro rfl
          exact ⟨hplace, hcall⟩
        · have hsame' := (hadded call hplace hcall).symm.trans (hadded call' hplace hcall')
          exact (List.singleton_inj.1 (List.append_cancel_left hsame')).symm
    · refine ⟨made, ?_, hnodup, fun call => ?_⟩
      · rw [hsame fun call hplace h => hcall ⟨call, hplace, h⟩, hmade]
      · rw [made_append_iff run, hmem call]
        exact ⟨.inl, fun h => h.resolve_right fun h => hcall ⟨call, h⟩⟩

/-- **A generator is asked no more than once, and only for what is needed.** Let there be a log of
what the generator of a new dictionary is asked for. In every run, of any dictionaries in any order,

* an event adds a call to the log if and only if it is about this dictionary and makes that call:
  it is the first that needs the views of a pair, and they have to be made, or the first about the
  view of a type, which has to be made;
* so the run adds exactly the calls of its events to the log, each of them once;
* a step of the dictionary that the user, a foreign key or the lack of a mapping exempts adds
  nothing, whatever happened before. -/
theorem Run.calls_logged (hlogs : s₀.Logs place log)
    (hstart : s₀.Starts place d schema config shares) (run : s₀.Run events s) :
    (∀ (e : Event) (s' : Session α ω),
      s.step e.place e.step = some (e.outcome.mapError .error, s') →
      (∀ call, e.place = place → s.Calls place (stepsAt place events) e.step call →
        log s'.world = log s.world ++ [call]) ∧
      ((∀ call, e.place = place → ¬ s.Calls place (stepsAt place events) e.step call) →
        log s'.world = log s.world)) ∧
    (∃ made : List Operation, log s.world = log s₀.world ++ made ∧ made.Nodup ∧
      ∀ call, call ∈ made ↔ s₀.Made place events call) ∧
    ∀ (e : Event) (s' : Session α ω), e.place = place → d.Exempt e.step →
      s.step e.place e.step = some (e.outcome.mapError .error, s') →
      log s'.world = log s.world := by
  have hlogged := fun (e : Event) (s' : Session α ω)
      (hstep : s.step e.place e.step = some (e.outcome.mapError .error, s')) =>
    (hlogs.of_run run).step (run.answered hstart) hstep
  refine ⟨hlogged, hlogs.made_of_run hstart run, fun e s' hplace hexempt hstep => ?_⟩
  refine (hlogged e s' hstep).2 fun call _ => ?_
  rintro ⟨d', tables, hd', hcall⟩
  cases run.dictionary_eq hstart hd'
  exact hexempt.not_calls call hcall

/-- In the shop the generator is asked for the pair by the first question about a set, and for the
items by the question about their type, and never twice for the same. -/
theorem shop_calls_logged : ∃ s made, Shop.keenSession.Run Shop.keenEvents s ∧ s.world = made ∧
    made.Nodup ∧ .pair ⟨0⟩ ∈ made ∧ .ofType Shop.itemsOnly ∈ made := by
  have hearlier : ∃ s, Shop.keenSession.Run Shop.events s ∧
      s.Calls 0 (stepsAt 0 Shop.events) (.getViewOfType Shop.itemsOnly) (.ofType Shop.itemsOnly) ∧
      ∃ s', s.step 0 (.getViewOfType Shop.itemsOnly) = some
        (.ok (.view ⟨1, .ofText (.ofType Shop.itemsOnly) "items" .runtime⟩), s') := by
    refine ⟨_, .step (.step (.step .start rfl) rfl) rfl, ⟨Shop.keenDictionary, _, rfl, ?_⟩, _, rfl⟩
    exact .ofType (by simp [stepsAt, Shop.events]) rfl rfl rfl rfl rfl
  obtain ⟨s, run, hcall, s', hstep⟩ := hearlier
  have run' : Shop.keenSession.Run Shop.keenEvents s' := run.step hstep
  obtain ⟨-, ⟨made, hmade, hnodup, hmem⟩, -⟩ := run'.calls_logged Shop.keen_logs Shop.keen_starts
  refine ⟨s', made, run', hmade, hnodup, (hmem _).2 ?_, (hmem _).2 ?_⟩
  · exact ⟨[], _, _, _, rfl, .start, rfl, Shop.keenDictionary, _, rfl,
      .pair (.getView (.pair rfl (fun _ h => by cases h) rfl rfl)) (List.forall_mem_nil _)
        (.inr rfl)⟩
  · exact ⟨Shop.events, _, [], s, rfl, run, rfl, hcall⟩

end Session

end QueryViews
