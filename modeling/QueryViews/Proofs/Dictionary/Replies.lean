import QueryViews.Proofs.Dictionary.Sound
import Mathlib.Data.List.TakeWhile

/-!
# A dictionary answers like its reference

The pairs that a dictionary resolved, and its mode, depend on the order in which they were asked
for. A dictionary **remembers** a list of containers asked for (`Reference.Remembers`) when exactly
their pairs are resolved, each as the reference gives it at that point, and the mode is the one that
the reference is in.

A step whose outcome is no fault has the outcome of the reference, and afterwards the dictionary
remembers one container more, if the step asked for one (`Reference.Describes.perform`).
-/

namespace QueryViews

variable {α β γ ω : Type}

/-- An outcome as the reference would put it. -/
def told (f : β → γ) : Except (Failure (Published Error)) β → Except (Failure Error) γ
  | .ok b => .ok (f b)
  | .error (.error e) => .error (.error e.value)
  | .error (.fault f) => .error (.fault f)

/-- Serial numbers do not matter to which extents have a view. -/
theorem PairViews.get?_plain (views : PairViews) (e : Extent) :
    (PairViews.plain views).get? e = (views.get? e).map Published.value := by
  obtain ⟨n, hn⟩ := OrderedMap.get?_mapIdx views (fun _ view => view.value) 0 e
  exact hn

/-! ## What is remembered in order -/

/-- Exactly the pairs of the containers asked for are resolved, each as it was at that point. -/
structure Reference.Remembers (ref : Reference α) (asked : List ContainerId) (sc : Scene α ω) :
    Prop extends ref.Known sc where
  mode : sc.tables.mode = ref.modeAfter asked
  pairs : sc.tables.pairs.Sound fun id r =>
    settle (ref.pairViews asked id) = .ok (plain PairViews.plain r)
  resolved : ∀ id, (sc.tables.pairs.get? id).isSome ↔ id ∈ asked

/-- From a state that remembers what was asked for, an act has the outcome that is expected; if it
does not fault, its state remembers `asked'`. -/
def Reference.Tells {ε ε' : Type} [Faulting ε] [Faulting ε'] (ref : Reference α) (lapse : Prop)
    (asked asked' : List ContainerId) (x : Act (Scene α ω) ε β)
    (tell : Except ε β → Except ε' γ) (p : Except ε' γ) : Prop :=
  ∀ sc, ref.Remembers asked sc → Expected lapse p (tell (x sc).1) ∧
    ((∀ f, (x sc).1 ≠ .error (Faulting.fault f)) → ref.Remembers asked' (x sc).2)

namespace Reference

variable {ref : Reference α} {lapse : Prop} {d : Dictionary ω} {host : Host α ω}
  {asked : List ContainerId} {sc sc' : Scene α ω}

/-- What is remembered is known. -/
theorem Remembers.holds (h : ref.Remembers asked sc) :
    ref.Holds sc.tables.pairs sc.tables.mode sc := ⟨h.toKnown, rfl, rfl⟩

/-- Acts that leave the pairs and the mode alone leave what is remembered alone. -/
theorem Remembers.of_holds (h : ref.Remembers asked sc)
    (h' : ref.Holds sc.tables.pairs sc.tables.mode sc') : ref.Remembers asked sc' := by
  refine ⟨h'.toKnown, ?_, ?_, ?_⟩
  · rw [h'.mode, h.mode]
  · rw [h'.pairs]
    exact h.pairs
  · rw [h'.pairs]
    exact h.resolved

/-- An act that leaves pairs and mode as they are tells what it ensures. -/
theorem Tells.of_ensures {ε ε' : Type} [Faulting ε] [Faulting ε'] {x : Act (Scene α ω) ε β}
    {tell : Except ε β → Except ε' γ} {p : Except ε' γ}
    (h : ∀ pairs mode, x.Ensures (ref.Holds pairs mode) fun r => Expected lapse p (tell r)) :
    ref.Tells lapse asked asked x tell p := by
  intro sc hsc
  obtain ⟨hstate, houtcome⟩ := h _ _ sc hsc.holds
  exact ⟨houtcome, fun _ => hsc.of_holds hstate⟩

/-! ## The order of questions -/

/-- What came before the first request does not change when that is made. -/
theorem takeWhile_append_singleton {ids : List ContainerId} {id : ContainerId} :
    (ids ++ [id]).takeWhile (· ≠ id) = ids.takeWhile (· ≠ id) := by
  induction ids with
  | nil => simp
  | cons j ids ih => by_cases hj : j = id <;> simp_all

/-- Requests after the first one do not matter. -/
theorem takeWhile_append_of_mem {ids : List ContainerId} {id : ContainerId} (h : id ∈ ids)
    (more : List ContainerId) : (ids ++ more).takeWhile (· ≠ id) = ids.takeWhile (· ≠ id) := by
  induction ids with
  | nil => cases h
  | cons j ids ih =>
    rw [List.cons_append, List.takeWhile_cons, List.takeWhile_cons]
    by_cases hj : j = id
    · simp [hj]
    · rw [ih ((List.mem_cons.1 h).resolve_left (Ne.symm hj))]

/-- Asking again changes nothing. -/
theorem pairViews_append_self (id : ContainerId) :
    ref.pairViews (asked ++ [id]) id = ref.pairViews asked id := by
  rw [pairViews, pairViews, takeWhile_append_singleton]

/-- What a pair is resolved to does not change by later requests. -/
theorem pairViews_append_of_mem {id : ContainerId} (h : id ∈ asked) (more : List ContainerId) :
    ref.pairViews (asked ++ more) id = ref.pairViews asked id := by
  rw [pairViews, pairViews, takeWhile_append_of_mem h]

/-- The views of a pair that is asked for now are those in the mode of now. -/
theorem pairViews_of_not_mem {id : ContainerId} (h : id ∉ asked) :
    ref.pairViews asked id = ref.viewsIn (ref.modeAfter asked) id := by
  have htake : asked.takeWhile (· ≠ id) = asked :=
    List.takeWhile_eq_self_iff.2 fun j hj => decide_eq_true fun hji => h (hji ▸ hj)
  rw [pairViews, htake]

/-- The mode after the pair of one more container. -/
theorem modeAfter_append (id : ContainerId) :
    ref.modeAfter (asked ++ [id]) =
      if ref.vacant id then .runtimeGeneration else ref.modeAfter asked := by
  have hany : (asked ++ [id]).any ref.vacant = (asked.any ref.vacant || ref.vacant id) := by
    rw [List.any_append, List.any_cons, List.any_nil, Bool.or_false]
  rw [modeAfter, modeAfter, hany]
  cases ref.vacant id with
  | false => rw [Bool.or_false]; rfl
  | true => rw [Bool.or_true, Bool.not_true, Bool.and_false]; rfl

/-- To ask for a pair again does not change the mode. -/
theorem modeAfter_append_of_mem {id : ContainerId} (h : id ∈ asked) :
    ref.modeAfter (asked ++ [id]) = ref.modeAfter asked := by
  rw [modeAfter_append]
  cases hv : ref.vacant id with
  | false => rfl
  | true =>
    have hany : asked.any ref.vacant = true := List.any_eq_true.2 ⟨id, h, hv⟩
    simp [modeAfter, hany]

/-! ## Resolving a pair -/

/-- The mode that resolving a pair ends in. -/
def modeFrom (ref : Reference α) (mode : Mode) (id : ContainerId) : Mode :=
  if ref.vacant id then .runtimeGeneration else mode

/-- An act ends as expected with the pairs and the mode as said, or in a lapse that may have come
before the mode was changed. -/
def Settles {ε : Type} [Faulting ε] (ref : Reference α) (lapse : Prop)
    (pairs : Memo ContainerId (Resolved PairViews)) (mode : Mode) (p : Except ε β)
    (outcome : Except ε β × Scene α ω) : Prop :=
  outcome.1 = p ∧ ref.Holds pairs mode outcome.2 ∨
    lapse ∧ (∃ f, outcome.1 = .error (Faulting.fault f)) ∧ ∃ mode', ref.Holds pairs mode' outcome.2

/-- An act that leaves pairs and mode as they are settles on what it ensures. -/
theorem Settles.of_ensures {ε : Type} [Faulting ε] {pairs : Memo ContainerId (Resolved PairViews)}
    {mode : Mode} {x : Act (Scene α ω) ε β} {p : Except ε β}
    (hx : x.Ensures (ref.Holds pairs mode) (Expected lapse p)) (hsc : ref.Holds pairs mode sc) :
    ref.Settles lapse pairs mode p (x sc) := by
  obtain ⟨hstate, heq | ⟨hl, hf⟩⟩ := hx sc hsc
  · exact .inl ⟨heq, hstate⟩
  · exact .inr ⟨hl, hf, mode, hstate⟩

/-- A pair is resolved as the reference does it in the mode of the moment. -/
theorem Describes.resolvePair (hd : ref.Describes lapse d host) (id : ContainerId)
    {pairs : Memo ContainerId (Resolved PairViews)} {mode : Mode}
    (hsc : ref.Holds pairs mode sc) :
    ref.Settles lapse pairs (ref.modeFrom mode id) (ref.viewsIn mode id)
      (d.resolvePair host id sc) := by
  cases mode with
  | runtimeGeneration =>
    have hrun : d.resolvePair host id sc = d.generatePair id sc := by
      rw [Dictionary.resolvePair, Act.bind_apply_ok (Act.state_apply sc), hsc.mode]
    rw [hrun, modeFrom, ite_self]
    exact .of_ensures (hd.generatePair id) hsc
  | generatedViews =>
    obtain ⟨hstate, hlookup⟩ := holds_admits.preGenerated hd.toSees id sc hsc
    rcases hsearch : d.preGenerated host id sc with ⟨r, sc'⟩
    rw [hsearch] at hstate hlookup
    have hrun : d.resolvePair host id sc = (d.preGenerated host id >>= fun adopted =>
        if adopted.isEmpty then Scene.setMode .runtimeGeneration >>= fun _ => d.generatePair id
        else pure adopted) sc := by
      rw [Dictionary.resolvePair, Act.bind_apply_ok (Act.state_apply sc), hsc.mode]
    rw [hrun]
    cases r with
    | error e =>
      rw [Act.bind_apply_error hsearch]
      rcases hlookup with hlookup | ⟨hl, f, hf⟩
      · have hvacant : ref.vacant id = false := by rw [vacant, ← hlookup]
        refine .inl ⟨?_, ?_⟩
        · rw [viewsIn, ← hlookup]
          rfl
        · rw [modeFrom, hvacant]
          exact hstate
      -- the search lapsed before the mode could change
      · exact .inr ⟨hl, ⟨f, congrArg _ (Except.error.inj hf)⟩, _, hstate⟩
    | ok adopted =>
      have hlookup := hlookup.eq_of_ok
      rw [Act.bind_apply_ok hsearch]
      by_cases hempty : adopted.isEmpty
      · have hvacant : ref.vacant id = true := by rw [vacant, hlookup]; exact hempty
        have hviews : ref.viewsIn .generatedViews id = ref.generated id := by
          rw [viewsIn, hlookup]
          exact if_pos hempty
        rw [if_pos hempty, modeFrom, if_pos hvacant, hviews]
        have hswitched : ref.Holds pairs .runtimeGeneration
            { sc' with tables.mode := .runtimeGeneration } :=
          ⟨hstate.elsewhere hstate.cache .., hstate.pairs, rfl⟩
        have hgenerate := Settles.of_ensures (hd.generatePair id) hswitched
        exact hgenerate
      · have hvacant : ¬ ref.vacant id = true := by rw [vacant, hlookup]; exact hempty
        have hviews : ref.viewsIn .generatedViews id = .ok adopted := by
          rw [viewsIn, hlookup]
          exact if_neg hempty
        rw [if_neg hempty, modeFrom, if_neg hvacant, hviews]
        exact .inl ⟨rfl, hstate⟩

/-- So it is when it is computed for the table, errors and all. -/
theorem Describes.computePair (hd : ref.Describes lapse d host) (id : ContainerId)
    {pairs : Memo ContainerId (Resolved PairViews)} {mode : Mode}
    (hsc : ref.Holds pairs mode sc) :
    Expected lapse (settle (ref.viewsIn mode id))
        (plain PairViews.plain <$> (d.computePair host id sc).1) ∧
      ∀ r, (d.computePair host id sc).1 = .ok r →
        ref.Holds pairs (ref.modeFrom mode id) (d.computePair host id sc).2 := by
  have hresolve := hd.resolvePair id hsc
  rw [Dictionary.computePair, Act.bind_apply, Act.settled]
  rcases hrun : d.resolvePair host id sc with ⟨outcome, sc'⟩
  rw [hrun] at hresolve
  rcases hresolve with ⟨heq, hstate⟩ | ⟨hl, ⟨f, hf⟩, -⟩
  · obtain rfl : outcome = ref.viewsIn mode id := heq
    -- the reference knows nothing of serial numbers
    have hissued : ∀ n, ref.Holds pairs (ref.modeFrom mode id)
        { sc' with tables.nextSerial := n } := fun n =>
      ⟨hstate.elsewhere hstate.cache .., hstate.pairs, hstate.mode⟩
    rcases ref.viewsIn mode id with (f | e) | views
    · exact ⟨.refl _, fun _ hr => by cases hr⟩
    · exact ⟨.refl _, fun _ _ => hissued _⟩
    · refine ⟨.inl ?_, fun _ _ => hissued _⟩
      change Except.ok (Except.ok (PairViews.plain (views.mapIdx _ _))) = _
      rw [PairViews.plain_mapIdx]
      rfl
  · obtain rfl : outcome = .error (.fault f) := hf
    exact ⟨.inr ⟨hl, f, rfl⟩, fun _ hr => by cases hr⟩

/-- The pair of one more container is remembered. -/
theorem Remembers.publish (h : ref.Remembers asked sc) {id : ContainerId} (hid : id ∉ asked)
    {r : Resolved PairViews}
    (hr : settle (ref.viewsIn (ref.modeAfter asked) id) = .ok (plain PairViews.plain r))
    {sc' : Scene α ω} (hsc' : ref.Holds (sc.tables.pairs.reserve id)
      (ref.modeFrom (ref.modeAfter asked) id) sc') :
    ref.Remembers (asked ++ [id]) (Scene.pairs.put (sc'.tables.pairs.publish id r) sc') := by
  refine ⟨⟨hsc'.cache, hsc'.hashes, hsc'.foreignKeys, hsc'.members, hsc'.typed⟩, ?_, ?_,
    fun j => ?_⟩
  · rw [modeAfter_append]
    exact hsc'.mode
  · -- a pair that was resolved before goes by the questions before it, and these are the same
    have hkept : sc.tables.pairs.Sound fun j r =>
        settle (ref.pairViews (asked ++ [id]) j) = .ok (plain PairViews.plain r) := by
      intro j r' hj
      rw [pairViews_append_of_mem ((h.resolved j).1 (by rw [hj]; rfl))]
      exact h.pairs j r' hj
    have hnew : settle (ref.pairViews (asked ++ [id]) id) = .ok (plain PairViews.plain r) := by
      rw [pairViews_append_self, pairViews_of_not_mem hid, hr]
    exact hsc'.pairs ▸ hkept.reserve.publish hnew
  · change ((sc'.tables.pairs.publish id r).get? j).isSome ↔ _
    rw [hsc'.pairs, Memo.get?_publish, Memo.get?_reserve, List.mem_append, List.mem_singleton,
      ← h.resolved]
    by_cases hj : id = j
    · simp [hj]
    · simp [hj, Ne.symm hj]

/-- The views of a pair are those that the reference has for it, and afterwards the pair is among
those remembered. -/
theorem Describes.pairViews (hd : ref.Describes lapse d host) (id : ContainerId) :
    ref.Tells lapse asked (asked ++ [id]) (d.pairViews host id)
      (plain PairViews.plain <$> ·) (settle (ref.pairViews asked id)) := by
  intro sc hsc
  cases hget : sc.tables.pairs.get? id with
  | some r =>
    -- resolved before: neither the pairs nor the mode change
    have hmem : id ∈ asked := (hsc.resolved id).1 (by rw [hget]; rfl)
    have hit : d.pairViews host id sc = (.ok r, sc) := Scene.pairs.getOrCompute_of_some _ hget
    rw [hit]
    refine ⟨.inl (hsc.pairs id r hget).symm, fun _ => ⟨hsc.toKnown, ?_, ?_, ?_⟩⟩
    · rw [hsc.mode, modeAfter_append_of_mem hmem]
    · intro j r' hj
      have hjmem : j ∈ asked := (hsc.resolved j).1 (by rw [hj]; rfl)
      rw [pairViews_append_of_mem hjmem]
      exact hsc.pairs j r' hj
    · intro j
      rw [hsc.resolved, List.mem_append, List.mem_singleton]
      exact ⟨.inl, fun h => h.elim (fun h => h) fun h => h ▸ hmem⟩
  | none =>
    have hid : id ∉ asked := fun hmem => by
      have hsome := (hsc.resolved id).2 hmem
      rw [hget] at hsome
      cases hsome
    have hreserved : ref.Holds (sc.tables.pairs.reserve id) (ref.modeAfter asked)
        (Scene.pairs.put (sc.tables.pairs.reserve id) sc) :=
      ⟨hsc.elsewhere hsc.cache .., rfl, hsc.mode⟩
    obtain ⟨houtcome, hstate⟩ := hd.computePair id hreserved
    rw [← pairViews_of_not_mem hid] at houtcome
    rcases hrun : d.computePair host id (Scene.pairs.put (sc.tables.pairs.reserve id) sc) with
      ⟨r, sc'⟩
    rw [hrun] at houtcome hstate
    cases r with
    | error f =>
      have hmiss : d.pairViews host id sc = (.error f, sc') :=
        Scene.pairs.getOrCompute_of_error hget hrun
      rw [hmiss]
      exact ⟨houtcome, fun hf => absurd rfl (hf f)⟩
    | ok r =>
      have hstate := hstate r rfl
      -- resolving a pair resolves no other, so the slot is still without a value
      have hgone : (Scene.pairs.table sc').get? id = none := by
        change sc'.tables.pairs.get? id = none
        rw [hstate.pairs, Memo.get?_reserve, hget]
      have hmiss : d.pairViews host id sc =
          (.ok r, Scene.pairs.put (sc'.tables.pairs.publish id r) sc') := by
        have hcomputed := Scene.pairs.getOrCompute_of_ok hget hrun
        rw [hgone] at hcomputed
        exact hcomputed
      rw [hmiss]
      refine ⟨houtcome, fun _ => hsc.publish hid ?_ hstate⟩
      rw [← pairViews_of_not_mem hid]
      exact houtcome.eq_of_ok

/-! ## Answers -/

/-- An error that is raised is the one that the reference refuses with. -/
theorem raise_ensures {p : Except (Failure Error) γ} {f : β → γ} {e : Error}
    {pairs : Memo ContainerId (Resolved PairViews)} {mode : Mode} (hp : p = refuse e) :
    (Scene.raise e : Act (Scene α ω) _ β).Ensures (ref.Holds pairs mode)
      fun r => Expected lapse p (told f r) := by
  subst hp
  exact issue_then fun n => .stop (.refl _)

/-- What is done with something resolved, once it is there. -/
theorem Tells.unwrap_then {δ δ' : Type} {asked' : List ContainerId}
    {x : Act (Scene α ω) Fault (Resolved δ)} {g : δ → δ'} {p : Except (Failure Error) δ'}
    {rest : δ → Act (Scene α ω) (Failure (Published Error)) β} {f : β → γ}
    {q : δ' → Except (Failure Error) γ}
    (hx : ref.Tells lapse asked asked' x (plain g <$> ·) (settle p))
    (hrest : ∀ pairs mode b, (rest b).Ensures (ref.Holds pairs mode) fun r =>
      Expected lapse (q (g b)) (told f r)) :
    ref.Tells lapse asked asked' (do rest (← Scene.unwrap (← x.widen))) (told f) (p >>= q) := by
  intro sc hsc
  obtain ⟨houtcome, hstate⟩ := hx sc hsc
  rw [Act.bind_apply, Act.widen, Act.mapFailure]
  rcases hrun : x sc with ⟨r, sc'⟩
  rw [hrun] at houtcome hstate
  -- a fault ends the act, an error that was kept is told again, and only a value goes on
  cases r with
  | error f =>
    refine ⟨?_, fun hf => absurd rfl (hf f)⟩
    rcases houtcome with heq | ⟨hl, -⟩
    · rw [eq_fault_of_settle heq.symm]
      exact .refl _
    · exact .inr ⟨hl, f, rfl⟩
  | ok r =>
    have hstate := hstate (ok_ne_fault r)
    rw [eq_reported_of_settle houtcome.eq_of_ok]
    cases r with
    | error e => exact ⟨.refl _, fun _ => hstate⟩
    | ok b =>
      obtain ⟨hrests, hreply⟩ := hrest _ _ b sc' hstate.holds
      exact ⟨hreply, fun _ => hstate.of_holds hrests⟩

/-- What was resolved, as an answer. -/
theorem Tells.unwrap {asked' : List ContainerId} {x : Act (Scene α ω) Fault (Resolved β)}
    {f : β → γ} {p : Except (Failure Error) γ}
    (hx : ref.Tells lapse asked asked' x (plain f <$> ·) (settle p)) :
    ref.Tells lapse asked asked' (do Scene.unwrap (← x.widen)) (told f) p := by
  have h : ref.Tells lapse asked asked' (x.widen >>= fun r => Scene.unwrap r >>= pure) (told f)
      (p >>= pure) := hx.unwrap_then fun _ _ _ => .pure (.refl _)
  simpa only [bind_pure] using h

/-- An answer made of another one. -/
theorem Tells.map {β' γ' : Type} {asked' : List ContainerId}
    {x : Act (Scene α ω) (Failure (Published Error)) β} {f : β → γ}
    {p : Except (Failure Error) γ} {g : β → β'} {f' : β' → γ'} {k : γ → γ'}
    (hx : ref.Tells lapse asked asked' x (told f) p) (hk : ∀ b, f' (g b) = k (f b)) :
    ref.Tells lapse asked asked' (do return g (← x)) (told f') (k <$> p) := by
  intro sc hsc
  obtain ⟨houtcome, hstate⟩ := hx sc hsc
  rw [Act.bind_apply]
  rcases hrun : x sc with ⟨r, sc'⟩
  rw [hrun] at houtcome hstate
  rcases r with (e | e) | b
  · exact ⟨houtcome.map k, fun hf => absurd rfl (hf e)⟩
  · exact ⟨houtcome.map k, fun _ => hstate fun f hf => by cases hf⟩
  · rw [houtcome.eq_of_ok]
    exact ⟨.inl (congrArg _ (hk b)), fun _ => hstate (ok_ne_fault b)⟩

/-- A look-up before an act that answers: where it faults, so does the answer. -/
theorem lookup_then {δ : Type} {pairs : Memo ContainerId (Resolved PairViews)} {mode : Mode}
    {x : Except Fault δ} {rest : δ → Act (Scene α ω) (Failure (Published Error)) β} {f : β → γ}
    {q : δ → Except (Failure Error) γ}
    (h : ∀ a, (rest a).Ensures (ref.Holds pairs mode) fun r => Expected lapse (q a) (told f r)) :
    (Act.ofExcept (monadLift x) >>= rest).Ensures (ref.Holds pairs mode) fun r =>
      Expected lapse ((monadLift x : Except (Failure Error) δ) >>= q) (told f r) := by
  cases x with
  | ok a => exact h a
  | error e => exact fun _ hs => ⟨hs, .refl _⟩

/-- An act that can only fault, before an act that answers. -/
theorem widen_then {δ δ' : Type} {pairs : Memo ContainerId (Resolved PairViews)} {mode : Mode}
    {x : Act (Scene α ω) Fault δ} {g : δ → δ'} {p : Except Fault δ'}
    {rest : δ → Act (Scene α ω) (Failure (Published Error)) β} {f : β → γ}
    {q : δ' → Except (Failure Error) γ}
    (hx : x.Ensures (ref.Holds pairs mode) fun r => Expected lapse p (g <$> r))
    (h : ∀ a, (rest a).Ensures (ref.Holds pairs mode) fun r =>
      Expected lapse (q (g a)) (told f r)) :
    (x.widen >>= rest).Ensures (ref.Holds pairs mode) fun r =>
      Expected lapse ((monadLift p : Except (Failure Error) δ') >>= q) (told f r) := by
  intro sc hsc
  obtain ⟨hstate, houtcome⟩ := hx sc hsc
  rw [Act.bind_apply, Act.widen, Act.mapFailure]
  rcases hrun : x sc with ⟨r, sc'⟩
  rw [hrun] at hstate houtcome
  cases r with
  | ok a =>
    cases houtcome.eq_of_ok
    exact h a sc' hstate
  | error e =>
    rcases houtcome with rfl | ⟨hl, -⟩
    · exact ⟨hstate, .refl _⟩
    · exact ⟨hstate, .inr ⟨hl, e, rfl⟩⟩

/-- The route of a dictionary, without serial numbers. -/
def Route.ofDictionary : Dictionary.Route → Route
  | .userView view => .userView view.value
  | .foreignKey set => .foreignKey set
  | .pair container => .pair container
  | .unmapped name => .unmapped name

theorem Describes.closureHash_id (hd : ref.Describes lapse d host) (id : ContainerId)
    {pairs : Memo ContainerId (Resolved PairViews)} {mode : Mode} :
    (d.closureHash id : Act (Scene α ω) Fault _).Ensures (ref.Holds pairs mode) fun r =>
      Expected lapse (ClosureHash.compute ref.schema id) ((fun h => h) <$> r) :=
  (holds_admits.closureHash hd.toSees id).mono fun r hr => by rwa [id_map']

/-- Dictionary and reference take the same route. -/
theorem Describes.route (hd : ref.Describes lapse d host) (e : Extent) :
    ref.route e = Route.ofDictionary <$> d.route e := by
  obtain ⟨n, hn⟩ := OrderedMap.get?_mapIdx ref.userViews Published.mk 0 (.extent e)
  rw [Reference.route, Dictionary.route, hd.userViews, hn]
  cases ref.userViews.get? (.extent e) with
  | some view => rfl
  | none =>
    have hroute : d.foreignKeyRoute? e = ref.foreignKeyRoute? e := by
      cases e <;> simp only [Dictionary.foreignKeyRoute?, Reference.foreignKeyRoute?, hd.schema]
    simp only [Option.map_none, hroute, hd.schema]
    rcases ref.foreignKeyRoute? e with f | (_ | set)
    · rfl
    · rcases ref.schema.containerOf e with f | owner
      · rfl
      · simp only [bind, Except.bind]
        cases ref.schema.canonicalContainer? owner with
        | some container => rfl
        | none => cases ref.schema.extentName e <;> rfl
    · rfl

/-- The view of an extent is that of the reference, and its pair counts as asked for. -/
theorem Describes.getView (hd : ref.Describes lapse d host) (e : Extent) :
    ref.Tells lapse asked (asked ++ (d.asks? (.getView e)).toList) (d.getView host e)
      (told Published.value) (ref.view asked e) := by
  have hroute := hd.route e
  rw [Dictionary.getView, Reference.view, Dictionary.asks?, hroute]
  cases hr : d.route e with
  | error f => exact fun _ _ => ⟨.refl _, fun hf => absurd rfl (hf f)⟩
  | ok r =>
    cases r with
    | userView view =>
      change ref.Tells lapse asked (asked ++ []) (Pure.pure view) _ (.ok view.value)
      rw [List.append_nil]
      exact .of_ensures fun _ _ => .pure (.refl _)
    | foreignKey set =>
      change ref.Tells lapse asked (asked ++ []) ((d.foreignKeyView set).widen >>= Scene.unwrap) _
        (ref.foreignKeyView set)
      rw [List.append_nil]
      exact Tells.unwrap (.of_ensures fun _ _ => hd.foreignKeyView set)
    -- only here a pair is asked for, and what follows is bookkeeping
    | pair container =>
      refine (hd.pairViews container).unwrap_then fun pairs mode views => ?_
      rw [PairViews.get?_plain]
      cases views.get? e with
      | some view => exact .pure (.refl _)
      | none =>
        rw [hd.schema]
        exact lookup_then fun name => raise_ensures rfl
    | unmapped name =>
      change ref.Tells lapse asked (asked ++ []) (Scene.raise (.viewNotGenerated name)) _
        (refuse (.viewNotGenerated name))
      rw [List.append_nil]
      exact .of_ensures fun _ _ => raise_ensures rfl

/-- The view of a type is that of the reference; no pair is asked for. -/
theorem Describes.getViewOfType (hd : ref.Describes lapse d host) (k : TypeKey)
    {pairs : Memo ContainerId (Resolved PairViews)} {mode : Mode} :
    (d.getViewOfType k : Act (Scene α ω) _ _).Ensures (ref.Holds pairs mode) fun r =>
      Expected lapse (ref.viewOfType k) (Option.map Published.value <$> r) := by
  obtain ⟨n, hn⟩ := OrderedMap.get?_mapIdx ref.userViews Published.mk 0 (.ofType k)
  obtain ⟨n', hn'⟩ := OrderedMap.get?_mapIdx ref.userViews Published.mk 0
    (.extent (.entitySet k.entitySet))
  rw [Dictionary.getViewOfType, Reference.viewOfType, hd.userViews, hn, hd.schema]
  cases ref.userViews.get? (.ofType k) with
  | some view => exact .pure (.refl _)
  | none =>
    simp only [Option.map_none]
    cases ref.schema.conceptual.model k.type with
    | error f => exact .stop (.refl _)
    | ok m =>
      change Act.Ensures _ (if m.isAbstract then _ else _) fun r =>
        Expected lapse (if m.isAbstract then _ else _) _
      by_cases ha : m.isAbstract
      · rw [if_pos ha, if_pos ha]
        exact .pure (.refl _)
      · rw [if_neg ha, if_neg ha, OrderedMap.contains, OrderedMap.contains, hn',
          Option.isSome_map]
        by_cases ho : (ref.userViews.get? (.extent (.entitySet k.entitySet))).isSome
        · rw [if_pos ho, if_pos ho]
          exact .pure (.refl _)
        · rw [if_neg ho, if_neg ho]
          exact hd.rememberedTyped k

/-- The members are those of the reference; no pair is asked for. -/
theorem Describes.interestingMembers (hd : ref.Describes lapse d host) (k : MembersKey) :
    ref.Tells lapse asked asked (d.interestingMembers k) (told Published.value) (ref.members k) :=
  .unwrap (.of_ensures fun _ _ => hd.resolveMembers k)

/-- The texts of the views of a pair are those of the views without serial numbers. -/
theorem Describes.textsByName (hd : ref.Describes lapse d host) (views : PairViews) :
    d.textsByName views = ref.textsByName (PairViews.plain views) := by
  rw [Dictionary.textsByName, Reference.textsByName, hd.schema, PairViews.entries_plain,
    List.mapM_map]
  rfl

/-- The artifact is that of the reference, and its pair counts as asked for. -/
theorem Describes.exportViews (hd : ref.Describes lapse d host) (id : ContainerId) :
    ref.Tells lapse asked (asked ++ (d.asks? (.exportViews id)).toList) (d.exportViews host id)
      (told fun a => a) (ref.artifact asked id) := by
  rw [Dictionary.exportViews, Reference.artifact, Dictionary.asks?, hd.schema]
  cases ref.schema.canonicalContainer? (.conceptual id) with
  | none =>
    change ref.Tells lapse asked (asked ++ []) _ _ _
    rw [List.append_nil, hd.notMapped]
    exact .of_ensures fun _ _ => lookup_then fun e => raise_ensures rfl
  | some container =>
    refine (hd.pairViews container).unwrap_then fun pairs mode views => ?_
    rw [hd.notMapped, hd.textsByName]
    refine widen_then (hd.closureHash_id container) fun hash => ?_
    cases hash with
    | none => exact lookup_then fun e => raise_ensures rfl
    | some hash => exact lookup_then fun pair => lookup_then fun texts => .pure (.refl _)

/-! ## Steps -/

/-- Each step of a dictionary has the outcome that the reference has, or a fault in its place. If it
does not fault, the dictionary remembers what the step asked for. -/
theorem Describes.perform (hd : ref.Describes lapse d host) (hsc : ref.Remembers asked sc)
    (step : Step) :
    (∀ reply, ref.reply? asked step = some reply →
      Expected lapse reply (told Answer.reply (d.perform host step sc).1)) ∧
    ((∀ f, (d.perform host step sc).1 ≠ .error (.fault f)) →
      ref.Remembers (asked ++ (d.asks? step).toList) (d.perform host step sc).2) := by
  have of_tells {reply : Except (Failure Error) Reply}
      (h : ref.Tells lapse asked (asked ++ (d.asks? step).toList) (d.perform host step)
        (told Answer.reply) reply) (hreply : ref.reply? asked step = some reply) :
      (∀ reply, ref.reply? asked step = some reply →
        Expected lapse reply (told Answer.reply (d.perform host step sc).1)) ∧
      ((∀ f, (d.perform host step sc).1 ≠ .error (.fault f)) →
        ref.Remembers (asked ++ (d.asks? step).toList) (d.perform host step sc).2) := by
    obtain ⟨houtcome, hstate⟩ := h sc hsc
    refine ⟨fun reply' hreply' => ?_, hstate⟩
    rw [hreply] at hreply'
    cases hreply'
    exact houtcome
  -- a step that asks for no pair leaves the list as it is
  have of_quiet {asked' : List ContainerId} {reply : Except (Failure Error) Reply}
      (h : ref.Tells lapse asked asked (d.perform host step) (told Answer.reply) reply)
      (hnone : asked' = []) :
      ref.Tells lapse asked (asked ++ asked') (d.perform host step) (told Answer.reply) reply := by
    rwa [hnone, List.append_nil]
  cases step with
  | getView e => exact of_tells ((hd.getView e).map fun _ => rfl) rfl
  | getViewOfType k =>
    refine of_tells (of_quiet (.of_ensures fun pairs mode => ?_) rfl) rfl
    refine widen_then (hd.getViewOfType k) fun view => ?_
    cases view with
    | none => exact .pure (.refl _)
    | some view => exact .pure (.refl _)
  | members k => exact of_tells (of_quiet ((hd.interestingMembers k).map fun _ => rfl) rfl) rfl
  | closureHash id =>
    refine of_tells (of_quiet (.of_ensures fun pairs mode => ?_) rfl) rfl
    exact widen_then (hd.closureHash_id id) fun hash => .pure (.refl _)
  | exportViews id => exact of_tells ((hd.exportViews id).map fun _ => rfl) rfl
  | warnings => exact ⟨nofun, fun _ => (List.append_nil asked).symm ▸ hsc⟩
  | clearCache =>
    refine of_tells (of_quiet (.of_ensures fun pairs mode => ?_) rfl) rfl
    refine Act.Ensures.bind (Q := (· = .ok ())) (.modify (fun _ hs => ?_) rfl)
      (fun _ _ => .pure (.refl _)) nofun
    exact ⟨hs.elsewhere (.none _) .., hs.pairs, hs.mode⟩
  | config =>
    refine of_tells (of_quiet (.of_ensures fun pairs mode => .pure ?_) rfl) rfl
    rw [hd.config]
    exact .refl _

end Reference

end QueryViews
