import QueryViews.Proofs.Dictionary.Kept
import Mathlib.Data.List.Basic

/-!
# Runs of a session

A **run** (`Session.Run`) is any number of steps, of any dictionaries in any order, none of which
faults. It leaves a list of events: who was asked for what, and how that ended.

What a step does to a session is said once, by `Session.step_cases`: the dictionary performs the
step on its own tables and what it sees of the shared cache, and all other tables stay. So what is
to hold of one dictionary all along (`Run.invariant_steps`) has to survive its own steps, given
something of the cache that every dictionary respects.
-/

namespace QueryViews

variable {α ω : Type}

/-- A step that the dictionary at a place has taken, and how it ended. -/
structure Event where
  place : Nat
  step : Step
  outcome : Except (Published Error) Answer

/-- What an event ended with was no fault. -/
theorem Event.outcome_ne_fault (e : Event) (f : Fault) :
    (e.outcome.mapError .error : Except (Failure (Published Error)) Answer) ≠
      .error (.fault f) := by
  cases e.outcome <;> exact nofun

/-- What a dictionary sees of a host. -/
def Host.seenBy (host : Host α ω) (d : Dictionary ω) : Host α ω :=
  if d.sharesAssemblies then host else host.withoutAssemblies

/-- The containers whose pairs the steps at a place asked for. -/
def Dictionary.askedAt (d : Dictionary ω) (place : Nat) (events : List Event) :
    List ContainerId :=
  events.filterMap fun e => if e.place = place then d.asks? e.step else none

/-- The steps that the dictionary at a place took. -/
def stepsAt (place : Nat) (events : List Event) : List Step :=
  events.filterMap fun e => if e.place = place then some e.step else none

/-- One more event is one more step at its place. -/
theorem stepsAt_append (place : Nat) (events : List Event) (e : Event) :
    stepsAt place (events ++ [e]) =
      stepsAt place events ++ if e.place = place then [e.step] else [] := by
  rw [stepsAt, stepsAt, List.filterMap_append, List.filterMap_cons, List.filterMap_nil]
  by_cases he : e.place = place
  · rw [if_pos he, if_pos he]
  · rw [if_neg he, if_neg he]

/-- An event of a list that has grown by one is the new one, or was there before. -/
theorem append_singleton_eq_append_cons {events before after : List Event} {last e : Event}
    (h : events ++ [last] = before ++ e :: after) :
    (after = [] ∧ before = events ∧ e = last) ∨
      ∃ after', after = after' ++ [last] ∧ events = before ++ e :: after' := by
  rcases List.eq_nil_or_concat' after with rfl | ⟨after', last', rfl⟩
  · obtain ⟨rfl, hlast⟩ := List.append_inj' h rfl
    exact .inl ⟨rfl, rfl, (List.singleton_inj.1 hlast).symm⟩
  · rw [← List.cons_append, ← List.append_assoc] at h
    obtain ⟨rfl, hlast⟩ := List.append_inj' h rfl
    rw [List.singleton_inj.1 hlast]
    exact .inr ⟨after', rfl, rfl⟩

/-- The pairs asked for at a place are those that its steps ask for. -/
theorem Dictionary.askedAt_eq (d : Dictionary ω) (place : Nat) (events : List Event) :
    d.askedAt place events = (stepsAt place events).filterMap d.asks? := by
  rw [askedAt, stepsAt, List.filterMap_filterMap]
  refine List.filterMap_congr fun e _ => ?_
  by_cases he : e.place = place
  · rw [if_pos he, if_pos he]
    rfl
  · rw [if_neg he, if_neg he]
    rfl

namespace Session

/-- What a dictionary with some tables works on in its next step. -/
def sceneOf (s : Session α ω) (d : Dictionary ω) (tables : Tables) : Scene α ω :=
  ⟨tables, if d.sharesAssemblies then s.cache else none, s.world⟩

/-- The session after the dictionary at a place ended a step in a scene. -/
def afterStep (s : Session α ω) (place : Nat) (d : Dictionary ω) (scene : Scene α ω) :
    Session α ω :=
  { s with
    dictionaries := s.dictionaries.set place (d, scene.tables)
    cache := if d.sharesAssemblies then scene.cache else s.cache
    world := scene.world }

/-- All that a step does: the dictionary at the place performs it. -/
theorem step_cases {s s' : Session α ω} {place : Nat} {step : Step}
    {r : Except (Failure (Published Error)) Answer} (h : s.step place step = some (r, s')) :
    ∃ d tables, s.dictionaries[place]? = some (d, tables) ∧
      r = (d.perform (s.host.seenBy d) step (s.sceneOf d tables)).1 ∧
      s' = s.afterStep place d (d.perform (s.host.seenBy d) step (s.sceneOf d tables)).2 := by
  rw [Session.step] at h
  cases hd : s.dictionaries[place]? with
  | none =>
    rw [hd] at h
    cases h
  | some p =>
    obtain ⟨d, tables⟩ := p
    rw [hd] at h
    cases h
    exact ⟨d, tables, rfl, rfl, rfl⟩

/-- Conversely, what the dictionary at a place performs is a step. -/
theorem step_of_perform {s : Session α ω} {place : Nat} {step : Step} {d : Dictionary ω}
    {tables : Tables} {r : Except (Failure (Published Error)) Answer} {sc : Scene α ω}
    (hd : s.dictionaries[place]? = some (d, tables))
    (h : d.perform (s.host.seenBy d) step (s.sceneOf d tables) = (r, sc)) :
    s.step place step = some (r, s.afterStep place d sc) := by
  obtain ⟨rfl, rfl⟩ := Prod.mk.inj h
  rw [Session.step, hd]
  rfl

/-- A step leaves the tables of the dictionaries at other places alone. -/
theorem getElem?_afterStep {s : Session α ω} {place : Nat} {p : Dictionary ω × Tables}
    (h : s.dictionaries[place]? = some p) (d : Dictionary ω) (scene : Scene α ω) (j : Nat) :
    (s.afterStep place d scene).dictionaries[j]? =
      if place = j then some (d, scene.tables) else s.dictionaries[j]? := by
  obtain ⟨hlt, -⟩ := List.getElem?_eq_some_iff.1 h
  rw [afterStep, List.getElem?_set]
  by_cases hj : place = j
  · rw [if_pos hj, if_pos hj, if_pos (hj ▸ hlt)]
  · rw [if_neg hj, if_neg hj]

/-- What a step does to the tables of the dictionary at a place: it is the one that takes the step,
or they stay as they are. -/
theorem step_tables {s s' : Session α ω} {acting place : Nat} {step : Step} {d : Dictionary ω}
    {t : Tables} {r : Except (Failure (Published Error)) Answer}
    (h : s.step acting step = some (r, s')) (hd : s.dictionaries[place]? = some (d, t)) :
    ∃ t', s'.dictionaries[place]? = some (d, t') ∧
      (acting = place ∧ (∃ sc sc' : Scene α ω, sc.tables = t ∧ sc'.tables = t' ∧
        d.perform (s.host.seenBy d) step sc = (r, sc')) ∨ acting ≠ place ∧ t' = t) := by
  obtain ⟨d', t', hd', rfl, rfl⟩ := step_cases h
  rw [getElem?_afterStep hd']
  by_cases hplace : acting = place
  · rw [if_pos hplace]
    rw [hplace, hd] at hd'
    cases hd'
    exact ⟨_, rfl, .inl ⟨hplace, s.sceneOf d t, _, rfl, rfl, rfl⟩⟩
  · rw [if_neg hplace]
    exact ⟨t, hd, .inr ⟨hplace, rfl⟩⟩

/-- Runs that begin in a session: their events, from the first to the last, and where they end. -/
inductive Run (s₀ : Session α ω) : List Event → Session α ω → Prop
  | start : Run s₀ [] s₀
  | step {events : List Event} {s s' : Session α ω} {e : Event} (run : Run s₀ events s)
    (h : s.step e.place e.step = some (e.outcome.mapError .error, s')) :
    Run s₀ (events ++ [e]) s'

/-- A run up to one of its events, and the step that the event is about. -/
theorem Run.split {s₀ s : Session α ω} {events before after : List Event} {e : Event}
    (run : s₀.Run events s) (hevents : events = before ++ e :: after) :
    ∃ s₁ s₂, s₀.Run before s₁ ∧
      s₁.step e.place e.step = some (e.outcome.mapError .error, s₂) := by
  induction run generalizing after with
  | start => cases before <;> cases hevents
  | @step events s s' last run hstep ih =>
    rcases append_singleton_eq_append_cons hevents with ⟨rfl, rfl, rfl⟩ | ⟨after', rfl, hevents'⟩
    · exact ⟨s, s', run, hstep⟩
    · exact ih hevents'

/-- Dictionaries, and the host, stay where they are. -/
theorem Run.unmoved {s₀ s : Session α ω} {events : List Event} (run : s₀.Run events s) :
    s.host = s₀.host ∧ ∀ (place : Nat) d tables, s.dictionaries[place]? = some (d, tables) →
      ∃ tables₀, s₀.dictionaries[place]? = some (d, tables₀) := by
  induction run with
  | start => exact ⟨rfl, fun _ _ tables h => ⟨tables, h⟩⟩
  | @step events s s' e run hstep ih =>
    obtain ⟨d, tables, hd, -, rfl⟩ := step_cases hstep
    refine ⟨ih.1, fun place d' tables' hd' => ?_⟩
    rw [getElem?_afterStep hd] at hd'
    by_cases hplace : e.place = place
    · rw [if_pos hplace] at hd'
      cases hd'
      exact ih.2 place _ _ (hplace ▸ hd)
    · rw [if_neg hplace] at hd'
      exact ih.2 place _ _ hd'

/-- What holds of the cache when every dictionary respects it, and of the dictionary at one place,
given the steps that it took, when its own steps keep it. -/
theorem Run.invariant_steps {s₀ s : Session α ω} {events : List Event} (run : s₀.Run events s)
    {C : ScanCache α → Prop} {P : List Step → Tables → Prop} {place : Nat}
    {d : Dictionary ω} {tables₀ : Tables} (hd : s₀.dictionaries[place]? = some (d, tables₀))
    (hC₀ : C s₀.cache) (hP₀ : P [] tables₀)
    (hC : ∀ d' : Dictionary ω, d'.sharesAssemblies → ∀ step (sc : Scene α ω), C sc.cache →
      C (d'.perform s₀.host step sc).2.cache)
    (hP : ∀ earlier step (sc : Scene α ω), (d.sharesAssemblies → C sc.cache) →
      (¬ d.sharesAssemblies → sc.cache = none) → P earlier sc.tables →
      (∀ f, (d.perform (s₀.host.seenBy d) step sc).1 ≠ .error (.fault f)) →
      P (earlier ++ [step]) (d.perform (s₀.host.seenBy d) step sc).2.tables) :
    C s.cache ∧ ∃ tables, s.dictionaries[place]? = some (d, tables) ∧
      P (stepsAt place events) tables := by
  -- any dictionary may take the next step: the cache depends on that one, the tables at the place
  -- change only if it is the one at the place
  induction run with
  | start => exact ⟨hC₀, tables₀, hd, hP₀⟩
  | @step events s s' e run hstep ih =>
    obtain ⟨hcache, tables, htables, hmemory⟩ := ih
    obtain ⟨d', tables', hd', houtcome, rfl⟩ := step_cases hstep
    rw [run.unmoved.1] at houtcome ⊢
    refine ⟨?_, ?_⟩
    · by_cases hshares : d'.sharesAssemblies
      · have hseen : s₀.host.seenBy d' = s₀.host := if_pos hshares
        have hC' := hC d' hshares e.step (s.sceneOf d' tables')
          (by rw [sceneOf, if_pos hshares]; exact hcache)
        rw [afterStep, if_pos hshares, hseen]
        exact hC'
      · rw [afterStep, if_neg hshares]
        exact hcache
    · rw [getElem?_afterStep hd', stepsAt_append]
      by_cases hplace : e.place = place
      · rw [if_pos hplace, if_pos hplace]
        obtain ⟨rfl, rfl⟩ : d' = d ∧ tables' = tables := by
          rw [hplace, htables] at hd'
          cases hd'
          exact ⟨rfl, rfl⟩
        refine ⟨_, rfl, hP _ _ _ (fun hshares => ?_) (fun hshares => ?_) hmemory ?_⟩
        · rw [sceneOf, if_pos hshares]
          exact hcache
        · rw [sceneOf, if_neg hshares]
        · rw [← houtcome]
          exact e.outcome_ne_fault
      · rw [if_neg hplace, if_neg hplace, List.append_nil]
        exact ⟨tables, htables, hmemory⟩

/-- The same, given the containers whose pairs the steps asked for. -/
theorem Run.invariant {s₀ s : Session α ω} {events : List Event} (run : s₀.Run events s)
    {C : ScanCache α → Prop} {P : List ContainerId → Tables → Prop} {place : Nat}
    {d : Dictionary ω} {tables₀ : Tables} (hd : s₀.dictionaries[place]? = some (d, tables₀))
    (hC₀ : C s₀.cache) (hP₀ : P [] tables₀)
    (hC : ∀ d' : Dictionary ω, d'.sharesAssemblies → ∀ step (sc : Scene α ω), C sc.cache →
      C (d'.perform s₀.host step sc).2.cache)
    (hP : ∀ asked step (sc : Scene α ω), (d.sharesAssemblies → C sc.cache) →
      (¬ d.sharesAssemblies → sc.cache = none) → P asked sc.tables →
      (∀ f, (d.perform (s₀.host.seenBy d) step sc).1 ≠ .error (.fault f)) →
      P (asked ++ (d.asks? step).toList) (d.perform (s₀.host.seenBy d) step sc).2.tables) :
    C s.cache ∧ ∃ tables, s.dictionaries[place]? = some (d, tables) ∧
      P (d.askedAt place events) tables := by
  rw [d.askedAt_eq]
  refine run.invariant_steps (P := fun steps => P (steps.filterMap d.asks?)) hd hC₀ hP₀ hC
    fun earlier step sc hshared halone hmemory hquiet => ?_
  have hlast : [step].filterMap d.asks? = (d.asks? step).toList := by
    rw [List.filterMap_cons, List.filterMap_nil]
    cases d.asks? step <;> rfl
  rw [List.filterMap_append, hlast]
  exact hP _ step sc hshared halone hmemory hquiet

end Session

end QueryViews
