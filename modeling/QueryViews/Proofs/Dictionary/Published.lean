import QueryViews.Proofs.Dictionary.Kept
import QueryViews.Proofs.Outcome

/-!
# What a dictionary has published

What is published in the tables of a dictionary stays there and stays the same, whatever the
collaborators answer and however a step ends (`Dictionary.keeps_published`). An answer other than
the warnings can be read off the tables from the moment it is given
(`Dictionary.recallAnswer_of_perform`), so the same question is answered the same from then on
(`Tables.Within.recallAnswer`).
-/

namespace QueryViews

variable {α ω β : Type}

/-- All that is published in some tables is published in others too, and is the same there. -/
structure Tables.Within (t t' : Tables) : Prop where
  pairs : t.pairs.Within t'.pairs
  typed : t.typed.Within t'.typed
  foreignKeys : t.foreignKeys.Within t'.foreignKeys
  hashes : t.hashes.Within t'.hashes
  members : t.members.Within t'.members

theorem Tables.Within.refl (t : Tables) : t.Within t :=
  ⟨.refl _, .refl _, .refl _, .refl _, .refl _⟩

theorem Tables.Within.trans {t t' t'' : Tables} (h : t.Within t') (h' : t'.Within t'') :
    t.Within t'' :=
  ⟨h.pairs.trans h'.pairs, h.typed.trans h'.typed, h.foreignKeys.trans h'.foreignKeys,
    h.hashes.trans h'.hashes, h.members.trans h'.members⟩

namespace Dictionary

variable {d : Dictionary ω} {host : Host α ω} {t t' : Tables} {sc sc' : Scene α ω}

/-! ## Steps add to the tables -/

/-- What is published stays, whatever the dictionary does besides. -/
theorem insensitive_within (t : Tables) : d.Insensitive host fun sc => t.Within sc.tables where
  scanned h := h
  loaded _ h := h
  generated _ h := h
  cleared h := h
  serial _ h := ⟨h.pairs, h.typed, h.foreignKeys, h.hashes, h.members⟩
  warnings _ h := ⟨h.pairs, h.typed, h.foreignKeys, h.hashes, h.members⟩
  foreignKeys hm h := ⟨h.pairs, h.typed, h.foreignKeys.trans hm, h.hashes, h.members⟩
  members hm h := ⟨h.pairs, h.typed, h.foreignKeys, h.hashes, h.members.trans hm⟩
  typed hm h := ⟨h.pairs, h.typed.trans hm, h.foreignKeys, h.hashes, h.members⟩
  reserved _ h := ⟨h.pairs, h.typed, h.foreignKeys, h.hashes.trans (Memo.within_reserve _ _),
    h.members⟩
  hashed _ _ h _ := ⟨h.pairs, h.typed, h.foreignKeys, h.hashes.trans (Memo.within_publish _ _ _),
    h.members⟩

/-- A step never takes back or replaces what is published, however it ends. -/
theorem keeps_published (d : Dictionary ω) (host : Host α ω) (t : Tables) (step : Step) :
    (d.perform host step).Keeps fun sc : Scene α ω => t.Within sc.tables := by
  have hp : d.Insensitive host fun sc => t.Within sc.tables := insensitive_within t
  refine hp.perform step fun id _ => ?_
  refine .getOrCompute (hp.computePair (fun _ h => ?_) id) (fun sc h => ?_) fun sc r h _ => ?_
  · exact ⟨h.pairs, h.typed, h.foreignKeys, h.hashes, h.members⟩
  · exact ⟨h.pairs.trans (Memo.within_reserve _ _), h.typed, h.foreignKeys, h.hashes, h.members⟩
  · exact ⟨h.pairs.trans (Memo.within_publish _ _ _), h.typed, h.foreignKeys, h.hashes, h.members⟩

/-- Making the view of a type never fails, except for a fault. -/
theorem perform_getViewOfType_ne_error (k : TypeKey) (e : Published Error) :
    (d.perform host (.getViewOfType k) sc).1 ≠ .error (.error e) := by
  rw [perform, Act.bind_apply, Act.widen, Act.mapFailure]
  intro h
  rcases hview : d.getViewOfType k sc with ⟨f | view, sc'⟩ <;> rw [hview] at h
  · cases h
  · cases view <;> cases h

/-! ## Answers can be read off the tables -/

/-- The view of an extent that the tables have. -/
def recallView (d : Dictionary ω) (t : Tables) (e : Extent) : Option (Published View) :=
  match d.route e with
  | .ok (.userView view) => some view
  | .ok (.foreignKey set) => (t.foreignKeys.get? set).bind Except.toOption
  | .ok (.pair id) => ((t.pairs.get? id).bind Except.toOption).bind (·.get? e)
  | .ok (.unmapped _) => none
  | .error _ => none

/-- What the tables have about an entity set restricted to a type. -/
def recallTyped (d : Dictionary ω) (t : Tables) (k : TypeKey) : Option (Option (Published View)) :=
  (d.settledTyped? k).toOption.bind fun answer => answer.elim (t.typed.get? k) some

/-- The artifact that the tables come to for a container. -/
def recallArtifact (d : Dictionary ω) (t : Tables) (id : ContainerId) : Option Artifact := do
  let c ← d.schema.canonicalContainer? (.conceptual id)
  let views ← (t.pairs.get? c).bind Except.toOption
  let hash ← (t.hashes.get? c).join
  return ⟨← (d.schema.pairName c).toOption, hash.text, ← (d.textsByName views).toOption⟩

/-- The answer to a step that can be read off some tables; none if they do not have it. Of the
warnings nothing can be told, as there may be more of them any time. -/
def recallAnswer (d : Dictionary ω) (t : Tables) : Step → Option Answer
  | .getView e => (d.recallView t e).map .view
  | .getViewOfType k => (d.recallTyped t k).map fun view => view.elim .noView .view
  | .members k => ((t.members.get? k).bind Except.toOption).map .members
  | .closureHash id => (t.hashes.get? id).map .closureHash
  | .exportViews id => (d.recallArtifact t id).map .artifact
  | .warnings => none
  | .clearCache => some .cleared
  | .config => some (.config d.config)

theorem toOption_eq_some_iff {ε : Type} {r : Except ε β} {b : β} :
    r.toOption = some b ↔ r = .ok b := by
  cases r with
  | ok b' => exact ⟨fun h => congrArg _ (Option.some.inj h), fun h => congrArg _ (Except.ok.inj h)⟩
  | error e => exact ⟨nofun, nofun⟩

/-- What an artifact read off some tables is made of. -/
theorem recallArtifact_eq_some_iff {id : ContainerId} {a : Artifact} :
    d.recallArtifact t id = some a ↔ ∃ c views hash,
      d.schema.canonicalContainer? (.conceptual id) = some c ∧
      t.pairs.get? c = some (.ok views) ∧ t.hashes.get? c = some (some hash) ∧
      d.schema.pairName c = .ok a.pair ∧ hash.text = a.hash ∧
      d.textsByName views = .ok a.views := by
  simp only [recallArtifact, Option.bind_eq_bind, Option.bind_eq_some_iff, Option.join_eq_some_iff,
    toOption_eq_some_iff, pure, Option.some.injEq]
  constructor
  · rintro ⟨c, hc, views, ⟨r, hpair, rfl⟩, hash, hhash, pair, hname, texts, htexts, rfl⟩
    exact ⟨c, views, hash, hc, hpair, hhash, hname, rfl, htexts⟩
  · rintro ⟨c, views, hash, hc, hpair, hhash, hname, htext, htexts⟩
    exact ⟨c, hc, views, ⟨_, hpair, rfl⟩, hash, hhash, a.pair, hname, a.views, htexts,
      htext ▸ rfl⟩

/-- A value that comes out of a table was in it. -/
theorem unwrap_apply_eq_ok {r : Resolved β} {b : β} (h : Scene.unwrap r sc = (.ok b, sc')) :
    r = .ok b ∧ sc = sc' := by
  cases r with
  | ok b' =>
    cases h
    exact ⟨rfl, rfl⟩
  | error e => cases h

/-- What a table of results gave, without an error, is in it. -/
theorem get?_of_unwrap_widen {κ : Type} [DecidableEq κ] {shelf : Shelf (Scene α ω) κ (Resolved β)}
    {k : κ} {compute : Act (Scene α ω) Fault (Resolved β)} {b : β}
    (h : ((shelf.getOrCompute k compute).widen >>= Scene.unwrap) sc = (.ok b, sc')) :
    (shelf.table sc').get? k = some (.ok b) := by
  obtain ⟨r, sc₁, hr, h⟩ := Act.bind_apply_eq_ok h
  obtain ⟨rfl, rfl⟩ := unwrap_apply_eq_ok h
  exact Act.get?_of_getOrCompute (Act.widen_apply_eq_ok hr)

/-- A view that was given can be read off the tables. -/
theorem recallView_of_getView {e : Extent} {v : Published View}
    (h : d.getView host e sc = (.ok v, sc')) : d.recallView sc'.tables e = some v := by
  obtain ⟨route, sc₁, hlookup, h⟩ := Act.bind_apply_eq_ok h
  obtain ⟨hroute, rfl⟩ := Act.lift_apply_eq_ok hlookup
  rw [recallView, hroute]
  cases route with
  | userView view =>
    cases h
    rfl
  | foreignKey set =>
    have hget : sc'.tables.foreignKeys.get? set = some (.ok v) := get?_of_unwrap_widen h
    simp only [hget]
    rfl
  | unmapped name => cases h
  -- the pair is in its table by now, and the view is among its views
  | pair id =>
    obtain ⟨r, sc₂, hpair, h⟩ := Act.bind_apply_eq_ok h
    have hget : sc₂.tables.pairs.get? id = some r :=
      Act.get?_of_getOrCompute (Act.widen_apply_eq_ok hpair)
    obtain ⟨views, sc₃, hviews, h⟩ := Act.bind_apply_eq_ok h
    obtain ⟨rfl, rfl⟩ := unwrap_apply_eq_ok hviews
    cases hview : views.get? e with
    | none =>
      rw [hview] at h
      obtain ⟨name, sc₄, -, h⟩ := Act.bind_apply_eq_ok h
      cases h
    | some view =>
      rw [hview] at h
      cases h
      simp only [hget]
      exact hview

/-- So can an answer about the view of a type. -/
theorem recallTyped_of_getViewOfType {k : TypeKey} {answer : Option (Published View)}
    (h : d.getViewOfType k sc = (.ok answer, sc')) : d.recallTyped sc'.tables k = some answer := by
  rw [getViewOfType_eq] at h
  obtain ⟨settled, sc₁, hlookup, h⟩ := Act.bind_apply_eq_ok h
  obtain ⟨hsettled, rfl⟩ := Act.ofExcept_apply_eq_ok hlookup
  rw [recallTyped, hsettled]
  cases settled with
  | some settled =>
    cases h
    rfl
  | none => exact Act.get?_of_getOrCompute h

/-- So can an artifact that was exported. -/
theorem recallArtifact_of_exportViews {id : ContainerId} {a : Artifact}
    (h : d.exportViews host id sc = (.ok a, sc')) : d.recallArtifact sc'.tables id = some a := by
  cases hc : d.schema.canonicalContainer? (.conceptual id) with
  | none =>
    rw [exportViews, hc] at h
    obtain ⟨e, sc₁, -, h⟩ := Act.bind_apply_eq_ok h
    cases h
  | some c =>
    rw [exportViews_of_canonical hc] at h
    obtain ⟨r, sc₁, hpair, h⟩ := Act.bind_apply_eq_ok h
    have hget : sc₁.tables.pairs.get? c = some r :=
      Act.get?_of_getOrCompute (Act.widen_apply_eq_ok hpair)
    obtain ⟨views, sc₂, hviews, h⟩ := Act.bind_apply_eq_ok h
    obtain ⟨rfl, rfl⟩ := unwrap_apply_eq_ok hviews
    obtain ⟨hash, sc₃, hcompute, h⟩ := Act.bind_apply_eq_ok h
    have hcompute := Act.widen_apply_eq_ok hcompute
    have hhash : sc₃.tables.hashes.get? c = some hash := Act.get?_of_getOrCompute hcompute
    -- what is remembered of the hash comes on top of the pair
    have hp : d.Insensitive host fun sc => sc₁.tables.Within sc.tables := insensitive_within _
    have hwithin := (hp.closureHash c sc₁ (.refl _)).1
    rw [hcompute] at hwithin
    cases hash with
    | none =>
      obtain ⟨e, sc₄, -, h⟩ := Act.bind_apply_eq_ok h
      cases h
    | some hash =>
      obtain ⟨pair, sc₄, hlookup, h⟩ := Act.bind_apply_eq_ok h
      obtain ⟨hname, rfl⟩ := Act.lift_apply_eq_ok hlookup
      obtain ⟨texts, sc₅, hlookup, h⟩ := Act.bind_apply_eq_ok h
      obtain ⟨htexts, rfl⟩ := Act.lift_apply_eq_ok hlookup
      cases h
      exact recallArtifact_eq_some_iff.2
        ⟨c, views, hash, hc, hwithin.pairs c _ hget, hhash, hname, rfl, htexts⟩

/-- An answer can be read off the tables that it was given with. -/
theorem recallAnswer_of_perform {step : Step} {answer : Answer} (hstep : step ≠ .warnings)
    (h : d.perform host step sc = (.ok answer, sc')) :
    d.recallAnswer sc'.tables step = some answer := by
  cases step with
  -- each act was a request to one of the tables, and what a table gave is in it
  | getView e =>
    obtain ⟨v, sc₁, hv, h⟩ := Act.bind_apply_eq_ok h
    cases h
    rw [recallAnswer, recallView_of_getView hv]
    rfl
  | getViewOfType k =>
    obtain ⟨view, sc₁, hview, h⟩ := Act.bind_apply_eq_ok h
    have hview := recallTyped_of_getViewOfType (Act.widen_apply_eq_ok hview)
    cases view <;> cases h <;> rw [recallAnswer, hview] <;> rfl
  | members k =>
    obtain ⟨ms, sc₁, hms, h⟩ := Act.bind_apply_eq_ok h
    cases h
    have hget : sc'.tables.members.get? k = some (.ok ms) := get?_of_unwrap_widen hms
    rw [recallAnswer, hget]
    rfl
  | closureHash id =>
    obtain ⟨hash, sc₁, hhash, h⟩ := Act.bind_apply_eq_ok h
    cases h
    have hget : sc'.tables.hashes.get? id = some hash :=
      Act.get?_of_getOrCompute (Act.widen_apply_eq_ok hhash)
    rw [recallAnswer, hget]
    rfl
  | exportViews id =>
    obtain ⟨a, sc₁, ha, h⟩ := Act.bind_apply_eq_ok h
    cases h
    rw [recallAnswer, recallArtifact_of_exportViews ha]
    rfl
  | warnings => exact absurd rfl hstep
  | clearCache =>
    cases h
    rfl
  | config =>
    cases h
    rfl

end Dictionary

/-! ## Answers stay -/

theorem Memo.Within.bind_eq_some {κ γ : Type} [DecidableEq κ] {m m' : Memo κ β} (h : m.Within m')
    {k : κ} {f : β → Option γ} {c : γ} (hc : (m.get? k).bind f = some c) :
    (m'.get? k).bind f = some c := by
  obtain ⟨b, hb, hf⟩ := Option.bind_eq_some_iff.1 hc
  rw [h k b hb]
  exact hf

section Within

variable {d : Dictionary ω} {t t' : Tables}

/-- What was read off the tables can be read off later ones. -/
theorem Tables.Within.recallView (h : t.Within t') {e : Extent} {v : Published View}
    (hv : d.recallView t e = some v) : d.recallView t' e = some v := by
  rw [Dictionary.recallView] at hv ⊢
  rcases hroute : d.route e with f | route <;> rw [hroute] at hv
  · cases hv
  · cases route with
    | userView view => exact hv
    | foreignKey set => exact h.foreignKeys.bind_eq_some hv
    | unmapped name => cases hv
    | pair id =>
      obtain ⟨views, hviews, hview⟩ := Option.bind_eq_some_iff.1 hv
      exact Option.bind_eq_some_iff.2 ⟨views, h.pairs.bind_eq_some hviews, hview⟩

/-- The same of what they have about a type. -/
theorem Tables.Within.recallTyped (h : t.Within t') {k : TypeKey}
    {answer : Option (Published View)} (ha : d.recallTyped t k = some answer) :
    d.recallTyped t' k = some answer := by
  obtain ⟨settled, hsettled, ha⟩ := Option.bind_eq_some_iff.1 ha
  refine Option.bind_eq_some_iff.2 ⟨settled, hsettled, ?_⟩
  cases settled with
  | some settled => exact ha
  | none => exact h.typed k answer ha

/-- The same of what they come to for an export. -/
theorem Tables.Within.recallArtifact (h : t.Within t') {id : ContainerId} {a : Artifact}
    (ha : d.recallArtifact t id = some a) : d.recallArtifact t' id = some a := by
  obtain ⟨c, views, hash, hc, hpair, hhash, hrest⟩ := Dictionary.recallArtifact_eq_some_iff.1 ha
  exact Dictionary.recallArtifact_eq_some_iff.2
    ⟨c, views, hash, hc, h.pairs c _ hpair, h.hashes c _ hhash, hrest⟩

/-- What can be read off some tables can be read off all later ones. -/
theorem Tables.Within.recallAnswer (h : t.Within t') {step : Step} {answer : Answer}
    (ha : d.recallAnswer t step = some answer) : d.recallAnswer t' step = some answer := by
  cases step with
  | getView e =>
    obtain ⟨v, hv, rfl⟩ := Option.map_eq_some_iff.1 ha
    exact Option.map_eq_some_iff.2 ⟨v, h.recallView hv, rfl⟩
  | getViewOfType k =>
    obtain ⟨view, hview, rfl⟩ := Option.map_eq_some_iff.1 ha
    exact Option.map_eq_some_iff.2 ⟨view, h.recallTyped hview, rfl⟩
  | members k =>
    obtain ⟨ms, hms, rfl⟩ := Option.map_eq_some_iff.1 ha
    exact Option.map_eq_some_iff.2 ⟨ms, h.members.bind_eq_some hms, rfl⟩
  | closureHash id =>
    obtain ⟨hash, hhash, rfl⟩ := Option.map_eq_some_iff.1 ha
    exact Option.map_eq_some_iff.2 ⟨hash, h.hashes id hash hhash, rfl⟩
  | exportViews id =>
    obtain ⟨a, hexport, rfl⟩ := Option.map_eq_some_iff.1 ha
    exact Option.map_eq_some_iff.2 ⟨a, h.recallArtifact hexport, rfl⟩
  | warnings => cases ha
  | clearCache => exact ha
  | config => exact ha

end Within

end QueryViews
