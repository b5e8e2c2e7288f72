import QueryViews.Proofs.Dictionary.Kept
import QueryViews.Proofs.Dictionary.Reference
import QueryViews.Proofs.OrderedMap

/-!
# A dictionary searches and generates like its reference

A reference **describes** a dictionary (`Reference.Describes`) if it has the same schema, options
and collaborators. What the dictionary remembers is then **known** (`Reference.Known`) as long as
every memo table holds what the reference would answer, and the scan cache what a scan finds.

The acts below keep that, leave the resolved pairs and the mode alone, and have the outcomes that
the reference expects.
-/

namespace QueryViews

variable {α β γ ω : Type}

/-! ## Without serial numbers -/

/-- What was resolved, with `f` taking the serial numbers out of a value. -/
def plain (f : β → γ) : Resolved β → Except Error γ
  | .ok b => .ok (f b)
  | .error e => .error e.value

/-- The views of a pair without their serial numbers. -/
def PairViews.plain (views : PairViews) : OrderedMap Extent View :=
  views.mapIdx (fun _ view => view.value) 0

/-- Numbers can be taken out again. -/
theorem map_snd_indexEntries {κ : Type} {f : Nat → α → β} {g : β → α} (hgf : ∀ n a, g (f n a) = a)
    (l : List (κ × α)) (n : Nat) :
    (indexEntries f n l).map (fun p => (p.1, g p.2)) = l := by
  induction l generalizing n with
  | nil => rfl
  | cons p l ih =>
    obtain ⟨k, a⟩ := p
    rw [indexEntries, List.map_cons, ih, hgf]

/-- Values that do not depend on their place are put in one by one. -/
theorem indexEntries_const {κ : Type} (f : α → β) (l : List (κ × α)) (n : Nat) :
    indexEntries (fun _ => f) n l = l.map fun p => (p.1, f p.2) := by
  induction l generalizing n with
  | nil => rfl
  | cons p l ih =>
    obtain ⟨k, a⟩ := p
    rw [indexEntries, List.map_cons, ih]

/-- Without serial numbers, the views of a pair are in the same order. -/
theorem PairViews.entries_plain (views : PairViews) :
    (PairViews.plain views).entries = views.entries.map fun p => (p.1, p.2.value) :=
  indexEntries_const _ _ _

/-- Serial numbers that were just given are taken out again. -/
theorem PairViews.plain_mapIdx (views : OrderedMap Extent View) (n : Nat) :
    PairViews.plain (views.mapIdx Published.mk n) = views := by
  apply OrderedMap.ext
  rw [PairViews.entries_plain]
  exact map_snd_indexEntries (fun _ _ => rfl) _ _

/-! ## Descriptions -/

/-- A reference that has the schema and the options of a dictionary, and that sees the same
assemblies. -/
structure Reference.Sees (ref : Reference α) (lapse : Prop) (d : Dictionary ω)
    (host : Host α ω) : Prop where
  schema : d.schema = ref.schema
  config : d.config = ref.config
  userViews : d.userViews = ref.userViews.mapIdx Published.mk 0
  name : host.name = ref.name
  scan : ∀ w, Expected lapse (.ok ref.assemblies) (host.scan w).1
  load : ∀ a w, Expected lapse (reported (ref.artifacts a)) (host.load a w).1

/-- A reference that has the generator of a dictionary besides. -/
structure Reference.Describes (ref : Reference α) (lapse : Prop) (d : Dictionary ω)
    (host : Host α ω) : Prop extends ref.Sees lapse d host where
  generator : ∀ q w, Expected lapse (reported (ref.generate q)) (d.generator q w).1

/-- An invariant under which searches can be relied on: what is in the cache and what is remembered
of hashes is right, and the invariant holds on when a scan, a hash or a change of the world is
added. -/
structure Reference.Admits (ref : Reference α) (P : Scene α ω → Prop) : Prop where
  cache : ∀ {s}, P s → s.cache.Fits ref.assemblies
  hashes : ∀ {s}, P s → s.tables.hashes.Sound fun k h => ClosureHash.compute ref.schema k = .ok h
  world : ∀ {s} w, P s → P { s with world := w }
  scanned : ∀ {s}, P s → P { s with cache := some ref.assemblies }
  reserved : ∀ {s} id, P s → P { s with tables.hashes := s.tables.hashes.reserve id }
  hashed : ∀ {s} id h, P s → ClosureHash.compute ref.schema id = .ok h →
    P { s with tables.hashes := s.tables.hashes.publish id h }

/-- What is remembered is what the reference would answer. -/
structure Reference.Known (ref : Reference α) (sc : Scene α ω) : Prop where
  cache : sc.cache.Fits ref.assemblies
  hashes : sc.tables.hashes.Sound fun k h => ClosureHash.compute ref.schema k = .ok h
  foreignKeys : sc.tables.foreignKeys.Sound fun k r =>
    settle (ref.foreignKeyView k) = .ok (plain Published.value r)
  members : sc.tables.members.Sound fun k r =>
    settle (ref.members k) = .ok (plain Published.value r)
  typed : sc.tables.typed.Sound fun k v => ref.typed k = .ok (v.map Published.value)

/-- What is remembered is known, and these are the pairs resolved and the mode. -/
structure Reference.Holds (ref : Reference α) (pairs : Memo ContainerId (Resolved PairViews))
    (mode : Mode) (sc : Scene α ω) : Prop extends ref.Known sc where
  pairs : sc.tables.pairs = pairs
  mode : sc.tables.mode = mode

namespace Reference

variable {ref : Reference α} {lapse : Prop} {d : Dictionary ω} {host : Host α ω}
  {P : Scene α ω → Prop} {pairs : Memo ContainerId (Resolved PairViews)} {mode : Mode}

/-- What is known does not depend on the pairs, the mode, the warnings, the serial numbers or the
world. -/
theorem Known.elsewhere {sc : Scene α ω} (h : ref.Known sc) {cache : ScanCache α}
    (hcache : cache.Fits ref.assemblies) (pairs : Memo ContainerId (Resolved PairViews))
    (mode : Mode) (warnings : List Diagnostic) (serial : Nat) (w : ω) :
    ref.Known ⟨{ sc.tables with pairs, mode, warnings, nextSerial := serial }, cache, w⟩ :=
  ⟨hcache, h.hashes, h.foreignKeys, h.members, h.typed⟩

/-- Neither a scan nor a hash changes what is known. -/
theorem holds_admits : ref.Admits (ref.Holds pairs mode : Scene α ω → Prop) where
  cache hs := hs.cache
  hashes hs := hs.hashes
  world _ hs := ⟨hs.elsewhere hs.cache .., hs.pairs, hs.mode⟩
  scanned hs := ⟨hs.elsewhere (fun _ h => by cases h; rfl) .., hs.pairs, hs.mode⟩
  reserved _ hs := ⟨⟨hs.cache, hs.hashes.reserve, hs.foreignKeys, hs.members, hs.typed⟩, hs.pairs,
    hs.mode⟩
  hashed _ _ hs hh := ⟨⟨hs.cache, hs.hashes.publish hh, hs.foreignKeys, hs.members, hs.typed⟩,
    hs.pairs, hs.mode⟩

/-! ## Adopting artifacts -/

/-- The hash of a pair is that of its content. -/
theorem Admits.closureHash (hp : ref.Admits P) (hd : ref.Sees lapse d host) (id : ContainerId) :
    (d.closureHash id : Act (Scene α ω) Fault _).Ensures P
      (Expected lapse (ClosureHash.compute ref.schema id)) := by
  refine .getOrCompute (Act.Ensures.ofExcept ?_) (fun s hs h hh => ?_)
    (fun s hs => hp.reserved id hs) fun s h hs hh => hp.hashed id h hs hh.eq_of_ok
  · rw [hd.schema]
    exact .refl _
  · exact .inl (hp.hashes hs id h hh).symm

/-- The error for a container that is not mapped is that of the reference. -/
theorem Sees.notMapped (hd : ref.Sees lapse d host) (id : ContainerId) :
    d.notMapped id = ref.notMapped id := by
  rw [Dictionary.notMapped, Reference.notMapped, hd.schema]

/-- Adopting an artifact is as the reference does it. -/
theorem Admits.adopt (hp : ref.Admits P) (hd : ref.Sees lapse d host) (id : ContainerId)
    (assembly : String) (views : OrderedMap Extent View) (a : Artifact) :
    (d.adopt id assembly views a : Act (Scene α ω) _ _).Ensures P
      (Expected lapse (ref.adopt id assembly views a)) := by
  rw [Dictionary.adopt, Reference.adopt]
  cases ClosureHash.parse a.hash with
  | error e => exact .pure (.refl _)
  | ok expected =>
    refine ((hp.closureHash hd id).widen).then fun live => ?_
    rw [hd.notMapped, hd.schema]
    cases live with
    | none => exact (Act.Ensures.ofExcept (.refl _)).then fun e => .ofExcept (.refl _)
    | some live =>
      simp only
      by_cases hne : expected ≠ live
      · rw [if_pos hne, if_pos hne]
        exact .ofExcept (.refl _)
      · rw [if_neg hne, if_neg hne]
        refine (Act.Ensures.ofExcept (.refl _)).then fun names => ?_
        cases Dictionary.namedTexts names a with
        | none => exact .pure (.refl _)
        | some texts =>
          simp only
          cases Dictionary.addTexts views texts with
          | ok views => exact .pure (.refl _)
          | error e => exact .ofExcept (.refl _)

/-- An assembly has what the reference says. -/
theorem Admits.inWorld_load (hp : ref.Admits P) (hd : ref.Sees lapse d host) (assembly : α) :
    (Scene.inWorld (host.load assembly) : Act (Scene α ω) _ _).Ensures P
      (Expected lapse (reported (ref.artifacts assembly))) :=
  .zoom (fun _ hs => hp.world _ hs) fun s _ => hd.load assembly s.world

/-- An error to report is one that can be taken as a value. -/
theorem settle_reported (r : Except Error β) : settle (reported r) = .ok r := by
  cases r <;> rfl

/-- What ends well, errors taken as values, was an outcome to report. -/
theorem eq_reported_of_settle {x : Except (Failure Error) β} {r : Except Error β}
    (h : settle x = .ok r) : x = reported r := by
  rcases x with (f | e) | b <;> cases h <;> rfl

/-- What faults, errors taken as values, was a fault before. -/
theorem eq_fault_of_settle {x : Except (Failure Error) β} {f : Fault}
    (h : settle x = .error f) : x = .error (.fault f) := by
  rcases x with (f | e) | b <;> cases h
  rfl

/-- Adopting from an assembly is as the reference does it. -/
theorem Admits.adoptAssembly (hp : ref.Admits P) (hd : ref.Sees lapse d host) (id : ContainerId)
    (pair : String) (views : OrderedMap Extent View) (assembly : α) :
    (d.adoptAssembly host id pair views assembly : Act (Scene α ω) _ _).Ensures P
      (Expected lapse (ref.adoptAssembly id pair views assembly)) := by
  have hload : (Scene.inWorld (host.load assembly)).settled.Ensures P
      (Expected lapse (.ok (ref.artifacts assembly))) := by
    rw [← settle_reported]
    exact (hp.inWorld_load hd assembly).settled
  rw [Dictionary.adoptAssembly, Reference.adoptAssembly]
  refine hload.widen.known ?_
  cases ref.artifacts assembly with
  | error e => exact .pure (.refl _)
  | ok artifacts =>
    rw [hd.name]
    exact .foldlM (hp.adopt hd id (ref.name assembly)) _ _

/-- The assemblies found are those of the reference. -/
theorem Admits.candidates (hp : ref.Admits P) (hd : ref.Sees lapse d host) :
    (Scene.inCache host.candidates : Act (Scene α ω) _ _).Ensures P
      (Expected lapse (.ok ref.assemblies)) := by
  intro s hs
  have hscan := hd.scan s.world
  simp only [Scene.inCache, Act.zoom, Host.candidates]
  cases hc : s.cache with
  | some found =>
    obtain rfl := hp.cache hs found hc
    exact ⟨hp.scanned hs, .refl _⟩
  | none =>
    -- nothing is kept, so the assemblies are looked for
    rcases hw : host.scan s.world with ⟨r, w⟩
    rw [hw] at hscan
    cases r with
    | ok found =>
      cases hscan.eq_of_ok
      exact ⟨hp.world w (hp.scanned hs), .refl _⟩
    | error f =>
      have hsame : ({ s with cache := none, world := w } : Scene α ω) = { s with world := w } := by
        rw [← hc]
      exact ⟨hsame ▸ hp.world w hs, hscan⟩

/-- The search for artifacts is as the reference does it. -/
theorem Admits.preGenerated (hp : ref.Admits P) (hd : ref.Sees lapse d host) (id : ContainerId) :
    (d.preGenerated host id : Act (Scene α ω) _ _).Ensures P
      (Expected lapse (ref.lookup id)) := by
  rw [Dictionary.preGenerated, Reference.lookup, hd.schema]
  refine (Act.Ensures.ofExcept (.refl _)).then fun pair => ?_
  exact (hp.candidates hd).widen.known (.foldlM (hp.adoptAssembly hd id pair) _ _)

/-! ## Asking the generator -/

/-- The generator answers as in the reference. -/
theorem Describes.ask (hd : ref.Describes lapse d host) (mapping : ContainerMapping)
    (operation : Operation) :
    (d.ask mapping operation : Act (Scene α ω) _ _).Ensures (ref.Holds pairs mode)
      (Expected lapse (reported (ref.generate ⟨ref.schema, mapping, ref.config, operation⟩))) := by
  rw [Dictionary.ask, hd.schema, hd.config]
  exact .zoom (fun _ hs => ⟨hs.elsewhere hs.cache .., hs.pairs, hs.mode⟩)
    fun s _ => hd.generator _ s.world

/-- Recording warnings always goes well. -/
theorem recordWarnings_ensures {ε : Type} [Faulting ε] (made : Generated) :
    (Scene.recordWarnings made : Act (Scene α ω) ε Unit).Ensures (ref.Holds pairs mode)
      (Expected lapse (.ok ())) :=
  .modify (fun _ hs => ⟨hs.elsewhere hs.cache .., hs.pairs, hs.mode⟩) (.refl _)

/-- The generated views of a pair are those of the reference. -/
theorem Describes.generatePair (hd : ref.Describes lapse d host) (id : ContainerId) :
    (d.generatePair id : Act (Scene α ω) _ _).Ensures (ref.Holds pairs mode)
      (Expected lapse (ref.generated id)) := by
  rw [Dictionary.generatePair, Reference.generated, hd.schema]
  refine (Act.Ensures.ofExcept (.refl _)).then fun pair => ?_
  refine (Act.Ensures.ofExcept (.refl _)).then fun mapping => ?_
  refine (hd.ask mapping (.pair id)).then fun made => ?_
  by_cases he : made.hasErrors
  · rw [if_pos he, if_pos he]
    exact .ofExcept (.refl _)
  · rw [if_neg he, if_neg he]
    exact (recordWarnings_ensures made).known (.ofExcept (.refl _))

/-- The generated view of a type is that of the reference. -/
theorem Describes.generateTyped (hd : ref.Describes lapse d host) (k : TypeKey) :
    (d.generateTyped k : Act (Scene α ω) _ _).Ensures (ref.Holds pairs mode)
      (Expected lapse (ref.typed k)) := by
  rw [Dictionary.generateTyped, Reference.typed, hd.schema]
  cases ref.schema.mapping.container? k.entitySet.container with
  | none => exact .pure (.refl _)
  | some mapping =>
    have hask : (d.ask mapping (.ofType k)).settled.Ensures (ref.Holds pairs mode)
        (Expected lapse (.ok (ref.generate ⟨ref.schema, mapping, ref.config, .ofType k⟩))) := by
      rw [← settle_reported]
      exact (hd.ask mapping (.ofType k)).settled
    refine hask.known ?_
    simp only
    cases ref.generate ⟨ref.schema, mapping, ref.config, .ofType k⟩ with
    | error e => exact .pure (.refl _)
    | ok made =>
      simp only
      by_cases he : made.hasErrors
      · rw [if_pos he, if_pos he]
        exact .pure (.refl _)
      · rw [if_neg he, if_neg he]
        refine (recordWarnings_ensures made).known ?_
        cases made.views.get? (.entitySet k.entitySet) with
        | none => exact .pure (.refl _)
        | some body => exact (Act.Ensures.ofExcept (.refl _)).then fun view => .pure (.refl _)

/-! ## What is remembered -/

/-- What follows a number must not depend on which one it is. -/
theorem issue_then {ε : Type} {b : β} {f : Published β → Act (Scene α ω) ε γ}
    {Q : Except ε γ → Prop} (h : ∀ n, (f ⟨n, b⟩).Ensures (ref.Holds pairs mode) Q) :
    (Scene.issue b >>= f).Ensures (ref.Holds pairs mode) Q := by
  intro s hs
  exact h s.tables.nextSerial _ ⟨hs.elsewhere hs.cache .., hs.pairs, hs.mode⟩

/-- The view by a foreign key is that of the reference, but for its number. -/
theorem Describes.foreignKeyView (hd : ref.Describes lapse d host) (id : AssociationSetId) :
    (d.foreignKeyView id : Act (Scene α ω) _ _).Ensures (ref.Holds pairs mode)
      fun r => Expected lapse (settle (ref.foreignKeyView id)) (plain Published.value <$> r) := by
  -- what is computed, what is found, and what the table is like before and after
  refine .getOrCompute ?_ (fun s hs r hr => ?_) (fun s hs => ?_) fun s r hs hr => ?_
  · rw [hd.schema]
    refine .ofExcept_then (fun r hr => ?_) fun f hf => ?_
    · rw [Reference.foreignKeyView, eq_reported_of_settle hr]
      rcases r with e | (_ | view)
      · exact issue_then fun n => .pure (.refl _)
      · refine .ofExcept_then (fun name hname => ?_) fun f hf => ?_
        · have hname : ref.schema.extentName (.associationSet id) = .ok name := hname
          rw [hname]
          exact issue_then fun n => .pure (.refl _)
        · have hf : ref.schema.extentName (.associationSet id) = .error f := hf
          rw [hf]
          exact .refl _
      · exact issue_then fun n => .pure (.refl _)
    · rw [Reference.foreignKeyView, eq_fault_of_settle hf]
      exact .refl _
  · exact .inl (hs.foreignKeys id r hr).symm
  · exact ⟨⟨hs.cache, hs.hashes, hs.foreignKeys.reserve, hs.members, hs.typed⟩, hs.pairs, hs.mode⟩
  · exact ⟨⟨hs.cache, hs.hashes, hs.foreignKeys.publish hr.eq_of_ok, hs.members, hs.typed⟩,
      hs.pairs, hs.mode⟩

/-- The members are those of the reference, but for their number. -/
theorem Describes.resolveMembers (hd : ref.Describes lapse d host) (k : MembersKey) :
    (d.resolveMembers k : Act (Scene α ω) _ _).Ensures (ref.Holds pairs mode)
      fun r => Expected lapse (settle (ref.members k)) (plain Published.value <$> r) := by
  refine .getOrCompute ?_ (fun s hs r hr => ?_) (fun s hs => ?_) fun s r hs hr => ?_
  · rw [hd.schema]
    refine .ofExcept_then (fun r hr => ?_) fun f hf => ?_
    · have hr : settle (ref.members k) = .ok r := hr
      rw [hr]
      cases r with
      | ok members => exact issue_then fun n => .pure (.refl _)
      | error e => exact issue_then fun n => .pure (.refl _)
    · have hf : settle (ref.members k) = .error f := hf
      rw [hf]
      exact .refl _
  · exact .inl (hs.members k r hr).symm
  · exact ⟨⟨hs.cache, hs.hashes, hs.foreignKeys, hs.members.reserve, hs.typed⟩, hs.pairs, hs.mode⟩
  · exact ⟨⟨hs.cache, hs.hashes, hs.foreignKeys, hs.members.publish hr.eq_of_ok, hs.typed⟩,
      hs.pairs, hs.mode⟩

/-- What is kept about a type is what the reference generates, but for its number. -/
theorem Describes.rememberedTyped (hd : ref.Describes lapse d host) (k : TypeKey) :
    (Scene.typed.getOrCompute k do
      match ← d.generateTyped k with
      | some view => return some (← Scene.issue view)
      | none => return none : Act (Scene α ω) Fault _).Ensures (ref.Holds pairs mode)
      fun r => Expected lapse (ref.typed k) (Option.map Published.value <$> r) := by
  refine .getOrCompute ?_ (fun s hs r hr => ?_) (fun s hs => ?_) fun s r hs hr => ?_
  · refine (hd.generateTyped k).bind (fun view hview => ?_) fun e he => ?_
    · rw [hview.eq_of_ok]
      cases view with
      | none => exact .pure (.refl _)
      | some view => exact issue_then fun n => .pure (.refl _)
    · exact he.map_error _
  · exact .inl (hs.typed k r hr).symm
  · exact ⟨⟨hs.cache, hs.hashes, hs.foreignKeys, hs.members, hs.typed.reserve⟩, hs.pairs, hs.mode⟩
  · exact ⟨⟨hs.cache, hs.hashes, hs.foreignKeys, hs.members, hs.typed.publish hr.eq_of_ok⟩,
      hs.pairs, hs.mode⟩

end Reference

end QueryViews
