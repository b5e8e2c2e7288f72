import QueryViews.Proofs.Dictionary.Published
import QueryViews.Proofs.Session.RoundTrip

/-!
# What happened to a session

A **history** (`Session.History`) is any number of steps, of any dictionaries in any order, those
that fault included. Of the collaborators nothing is said at all: they may answer each time as they
like.

Whatever a dictionary of the session published once is what it answers with ever after
(`Session.History.published`). That is so because each step adds to the tables of its own dictionary
and leaves those of the others alone (`Session.step_adds`), and because every answer can be read off
the tables.
-/

namespace QueryViews

variable {α ω : Type}

/-- A step that the dictionary at a place was asked to take, and how that ended, if only with a
fault. -/
structure Attempt where
  place : Nat
  step : Step
  outcome : Except (Failure (Published Error)) Answer

namespace Session

/-- Histories that begin in a session: what was attempted, from the first to the last, and where
that led. -/
inductive History (s₀ : Session α ω) : List Attempt → Session α ω → Prop
  | start : History s₀ [] s₀
  | step {attempts : List Attempt} {s s' : Session α ω} {a : Attempt}
    (history : History s₀ attempts s) (h : s.step a.place a.step = some (a.outcome, s')) :
    History s₀ (attempts ++ [a]) s'

variable {s₀ s s' : Session α ω} {place : Nat} {d : Dictionary ω} {t : Tables}

/-- A step adds to the tables of the dictionary that takes it, so that its answer can be read off
them, and leaves all others alone. -/
theorem step_adds {acting : Nat} {step : Step} {r : Except (Failure (Published Error)) Answer}
    (h : s.step acting step = some (r, s')) (hd : s.dictionaries[place]? = some (d, t)) :
    ∃ t', s'.dictionaries[place]? = some (d, t') ∧ t.Within t' ∧
      (acting = place → step ≠ .warnings → ∀ answer, r = .ok answer →
        d.recallAnswer t' step = some answer) := by
  obtain ⟨t', ht', ⟨-, sc, sc', rfl, rfl, hperform⟩ | ⟨hplace, rfl⟩⟩ := step_tables h hd
  · have hwithin := (d.keeps_published (s.host.seenBy d) sc.tables step sc (.refl _)).1
    rw [hperform] at hwithin
    refine ⟨_, ht', hwithin, fun _ hstep answer hanswer => ?_⟩
    exact Dictionary.recallAnswer_of_perform hstep (hanswer ▸ hperform)
  · exact ⟨t', ht', .refl _, fun h => absurd h hplace⟩

namespace History

variable {attempts before after : List Attempt} {t₀ : Tables}

/-- In a history the tables of a dictionary grow, and every answer it gave can be read off them in
the end. -/
theorem adds (history : s₀.History attempts s) (hd : s₀.dictionaries[place]? = some (d, t₀)) :
    ∃ t, s.dictionaries[place]? = some (d, t) ∧ t₀.Within t ∧
      ∀ a ∈ attempts, a.place = place → a.step ≠ .warnings → ∀ answer, a.outcome = .ok answer →
        d.recallAnswer t a.step = some answer := by
  induction history with
  | start => exact ⟨t₀, hd, .refl _, List.forall_mem_nil _⟩
  | @step attempts s s' a history hstep ih =>
    obtain ⟨t, ht, hwithin, hrecall⟩ := ih
    obtain ⟨t', ht', hwithin', hlast⟩ := step_adds hstep ht
    refine ⟨t', ht', hwithin.trans hwithin', fun b hb hplace hwarnings answer hanswer => ?_⟩
    rcases List.mem_append.1 hb with hb | hb
    · exact hwithin'.recallAnswer (hrecall b hb hplace hwarnings answer hanswer)
    · obtain rfl := List.mem_singleton.1 hb
      exact hlast hplace hwarnings answer hanswer

/-- The question about a type ends with an answer, or with a fault. -/
theorem typed_ends (history : s₀.History attempts s) :
    ∀ a ∈ attempts, ∀ k, a.step = .getViewOfType k → ∀ e, a.outcome ≠ .error (.error e) := by
  induction history with
  | start => exact List.forall_mem_nil _
  | @step attempts s s' a history hstep ih =>
    intro b hb k hk e he
    rcases List.mem_append.1 hb with hb | hb
    · exact ih b hb k hk e he
    · obtain rfl := List.mem_singleton.1 hb
      obtain ⟨d, t, -, houtcome, -⟩ := step_cases hstep
      rw [he, hk] at houtcome
      exact Dictionary.perform_getViewOfType_ne_error k e houtcome.symm

end History

end Session

/-! ## A shop with moods -/

namespace Shop

/-- The views of one set, or of the other. -/
def other : Generated := ⟨.ofList [(tags, .text "tags")], []⟩

/-- Gives up the first time it is asked, and answers differently each time after that. -/
def moody : Generator Nat := fun _ asked =>
  match asked with
  | 0 => (.error (.fault .collaborator), 1)
  | 1 => (.ok generated, 2)
  | more => (.ok other, more + 1)

/-- A dictionary of the shop with that generator. -/
def moodyDictionary : Dictionary Nat :=
  ⟨schema "Item" "Tag", ⟨true, true, true⟩, moody, true, .empty⟩

/-- A session of that dictionary; the generator counts in the world how often it was asked. -/
def moodySession : Session Unit Nat :=
  ⟨⟨fun _ => "Views", pure [()], fun _ => pure []⟩, [(moodyDictionary, tables)], none, 0⟩

/-- The view of the items, which the second attempt to get it publishes. -/
def itemView : Published View := ⟨0, .ofText (.extent items) "items" .runtime⟩

/-- What is attempted before the export. -/
def earlier : List Attempt := [
  ⟨0, .getView items, .error (.fault .collaborator)⟩,
  ⟨0, .getView items, .ok (.view itemView)⟩,
  ⟨0, .clearCache, .ok .cleared⟩]

/-- At last what was made is exported. -/
def attempts : List Attempt := earlier ++ [⟨0, .exportViews ⟨0⟩, .ok (.artifact artifact)⟩]

/-- Views from the generator may be of any extent. -/
theorem listed_itemViews (s : Schema) : s.Listed ⟨0⟩ (PairViews.plain itemViews) := by
  intro extents _ e v hv
  obtain heq : (e, v) = (items, itemView.value) :=
    List.mem_singleton.1 (OrderedMap.get?_eq_some_iff.1 hv)
  cases heq
  exact .inl rfl

/-- That is how it goes. -/
theorem history : ∃ s, moodySession.History attempts s := by
  have hearlier : ∃ s t, moodySession.History earlier s ∧
      s.dictionaries[0]? = some (moodyDictionary, t) ∧ t.hashes = .empty ∧
      t.pairs = (Memo.empty.reserve ⟨0⟩).publish ⟨0⟩ (.ok itemViews) :=
    ⟨_, _, .step (.step (.step .start rfl) rfl) rfl, rfl, rfl, rfl⟩
  obtain ⟨s, t, history, hd, hhashes, hpairs⟩ := hearlier
  have horderly : moodyDictionary.Orderly t := by
    refine ⟨hhashes ▸ Memo.sound_empty, hpairs ▸ Memo.sound_empty.reserve.publish ?_⟩
    rintro views ⟨⟩
    exact listed_itemViews _
  have hget : t.pairs.get? ⟨0⟩ = some (.ok itemViews) := by
    rw [hpairs]
    rfl
  -- the pair is in the table, so nobody is asked for it
  have hpair : moodyDictionary.pairViews (s.host.seenBy moodyDictionary) ⟨0⟩
      (s.sceneOf moodyDictionary t) = (.ok (.ok itemViews), s.sceneOf moodyDictionary t) :=
    Scene.pairs.getOrCompute_of_some _ hget
  have hc : moodyDictionary.schema.canonicalContainer? (.conceptual ⟨0⟩) = some ⟨0⟩ := rfl
  obtain ⟨sc', hexport, -⟩ := Dictionary.exists_exportViews_eq horderly hc hpair
    (ClosureHash.compute_of_content content_eq) rfl rfl
  exact ⟨_, history.step (Session.step_of_perform hd (Act.bind_apply_ok hexport))⟩

end Shop

/-! ## Nothing is replaced -/

namespace Session

/-- These views are held for the pair of a container, and they are what was published for it first:
whichever session this one comes from, the pair was not resolved in it yet, or had these views. -/
def Originals (s : Session α ω) (place : Nat) (id : ContainerId) (views : PairViews) : Prop :=
  s.Holds place id views ∧
    ∀ (s₁ : Session α ω) (later : List Attempt) (d : Dictionary ω) (t : Tables) r,
      s₁.History later s → s₁.dictionaries[place]? = some (d, t) → t.pairs.get? id = some r →
        r = .ok views

variable {s₀ s : Session α ω} {place : Nat} {d : Dictionary ω} {t₀ : Tables}

/-- What is published for a pair was published for it first. -/
theorem Holds.originals {id : ContainerId} {views : PairViews} (h : s.Holds place id views) :
    s.Originals place id views := by
  refine ⟨h, fun s₁ later d t r hlater ht hr => ?_⟩
  obtain ⟨d', t', ht', hget⟩ := h
  obtain ⟨t'', ht'', hwithin, -⟩ := hlater.adds ht
  rw [ht'] at ht''
  cases ht''
  have hsame := hwithin.pairs id r hr
  rw [hget] at hsame
  exact (Option.some.inj hsame).symm

/-- **What is published is never replaced.** Whatever a dictionary is asked in a history, among any
collaborators, with steps that fault and clearings of the cache in between,

* the same question, but for the one about warnings, is answered with the same thing, not only with
  an equal one, whenever it is answered at all; and the one about a type is, unless it faults;
* an exported artifact has the texts of the views that were the first to be published for its pair,
  and every view that was handed out for an extent of the pair is one of these. -/
theorem History.published {attempts : List Attempt} (history : s₀.History attempts s)
    (hd : s₀.dictionaries[place]? = some (d, t₀)) :
    (∀ a ∈ attempts, ∀ b ∈ attempts, a.place = place → b.place = place → a.step = b.step →
      a.step ≠ .warnings → ∀ x y, a.outcome = .ok x → b.outcome = .ok y → x = y) ∧
    (∀ a ∈ attempts, a.place = place → ∀ k, a.step = .getViewOfType k →
      ∀ e, a.outcome ≠ .error (.error e)) ∧
    ∀ a ∈ attempts, a.place = place → ∀ id artifact, a.step = .exportViews id →
      a.outcome = .ok (.artifact artifact) →
      ∃ c views, d.schema.canonicalContainer? (.conceptual id) = some c ∧
        s.Originals place c views ∧
        (∀ b ∈ attempts, b.place = place → ∀ e v, b.step = .getView e → b.outcome = .ok (.view v) →
          d.route e = .ok (.pair c) → views.get? e = some v) ∧
        ∀ n text, artifact.views.get? n = some text →
          ∃ e v, views.get? e = some v ∧ d.schema.extentName e = .ok n ∧ v.value.text = text := by
  -- all that was answered can be read off the tables at the end
  obtain ⟨t, ht, -, hrecall⟩ := history.adds hd
  refine ⟨fun a ha b hb hplace hplace' hstep hwarnings x y hx hy => ?_,
    fun a ha hplace k hstep e => ?_, fun a ha hplace id artifact hstep houtcome => ?_⟩
  · have hxt := hrecall a ha hplace hwarnings x hx
    have hyt := hrecall b hb hplace' (hstep ▸ hwarnings) y hy
    rw [hstep, hyt] at hxt
    exact (Option.some.inj hxt).symm
  · exact history.typed_ends a ha k hstep e
  · have hexport := hrecall a ha hplace (by rw [hstep]; exact Step.noConfusion) _ houtcome
    rw [hstep] at hexport
    obtain ⟨artifact', hrecalled, heq⟩ := Option.map_eq_some_iff.1 hexport
    cases heq
    obtain ⟨c, views, hash, hc, hpair, -, -, -, htexts⟩ :=
      Dictionary.recallArtifact_eq_some_iff.1 hrecalled
    have hholds : s.Holds place c views := ⟨d, t, ht, hpair⟩
    refine ⟨c, views, hc, hholds.originals, fun b hb hplace e v hstep hview hroute => ?_,
      fun n text hn => Dictionary.exists_of_get?_textsByName htexts hn⟩
    have hrecalled := hrecall b hb hplace (by rw [hstep]; exact Step.noConfusion) _ hview
    rw [hstep] at hrecalled
    obtain ⟨v', hv', heq⟩ := Option.map_eq_some_iff.1 hrecalled
    cases heq
    rw [Dictionary.recallView, hroute] at hv'
    simp only [hpair] at hv'
    exact hv'

/-- The shop exports the view that it gave out before, though its generator would make another one
by now. -/
theorem shop_published : ∃ s, Shop.moodySession.History Shop.attempts s ∧
    ∃ views, s.Originals 0 ⟨0⟩ views ∧ views.get? Shop.items = some Shop.itemView := by
  obtain ⟨s, history⟩ := Shop.history
  have hd : Shop.moodySession.dictionaries[0]? = some (Shop.moodyDictionary, Shop.tables) := rfl
  obtain ⟨-, -, hexports⟩ := history.published hd
  obtain ⟨c, views, hc, horiginals, hviews, -⟩ :=
    hexports _ (List.mem_append_right _ (List.mem_singleton_self _)) rfl _ _ rfl rfl
  cases hc
  have hmem : ⟨0, .getView Shop.items, .ok (.view Shop.itemView)⟩ ∈ Shop.attempts :=
    List.mem_cons_of_mem _ List.mem_cons_self
  exact ⟨s, history, views, horiginals, hviews _ hmem rfl _ _ rfl rfl rfl⟩

end Session

end QueryViews
