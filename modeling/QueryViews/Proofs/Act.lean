import QueryViews.Memo

/-!
# What acts ensure

An act **ensures** an outcome under an invariant (`Act.Ensures`) if from every state with the
invariant it ends in one, and with an outcome of that kind. The invariant holds after a failed act
too, since what an act did before it failed stays done.

The outcome may be a certain one (`Expected`). Where collaborators may **lapse**, any of their
answers may be a fault instead, and the fault takes the place of whatever was expected.

* **sequence** — what follows an expected outcome is expected (`Ensures.then`);
* **memo** — a table whose values are of a kind gives values of that kind, whether it had them or
  has them computed (`Ensures.getOrCompute`).

An act that ensures nothing of its outcome still **keeps** the invariant (`Act.Keeps`), and one
that may fail in any way **yields** a value of some kind if it gives one (`Act.Yields`).
-/

namespace QueryViews

variable {σ τ ε ε' α β κ : Type}

/-! ## Expected outcomes -/

/-- The ways to fail among which are faults. -/
class Faulting (ε : Type) where
  fault : Fault → ε

instance : Faulting Fault := ⟨id⟩

instance : Faulting (Failure ε) := ⟨.fault⟩

/-- The outcome is `p`; where lapses are possible, it may be a fault instead. -/
def Expected [Faulting ε] (lapse : Prop) (p r : Except ε α) : Prop :=
  r = p ∨ lapse ∧ ∃ f, r = .error (Faulting.fault f)

/-- A value is not a fault. -/
theorem ok_ne_fault [Faulting ε] (a : α) (f : Fault) :
    (.ok a : Except ε α) ≠ .error (Faulting.fault f) := nofun

section Expected

variable [Faulting ε] {lapse : Prop}

theorem Expected.refl (p : Except ε α) : Expected lapse p p := .inl rfl

/-- A value that comes out is the expected one: lapses give no values. -/
theorem Expected.eq_of_ok {p : Except ε α} {a : α} (h : Expected lapse p (.ok a)) : p = .ok a := by
  rcases h with h | ⟨-, f, hf⟩
  · exact h.symm
  · cases hf

/-- Where a value is expected, no other one comes out. -/
theorem Expected.value_eq {r : Except ε α} {a b : α} (h : Expected lapse (.ok a) r)
    (hr : r = .ok b) : b = a := by
  subst hr
  exact (Except.ok.inj h.eq_of_ok).symm

/-- An error that is expected, or a fault in its place, does not depend on the type of value that
was asked for. -/
theorem Expected.map_error {p : Except ε α} {e : ε} (h : Expected lapse p (.error e))
    (f : β → α) : Expected lapse p (f <$> (.error e : Except ε β)) := by
  rcases h with h | ⟨hl, g, hg⟩
  · exact .inl h
  · exact .inr ⟨hl, g, congrArg _ (Except.error.inj hg)⟩

/-- What is made of an expected outcome is what is made of the one that comes out. -/
theorem Expected.map {p r : Except ε α} (h : Expected lapse p r) (f : α → β) :
    Expected lapse (f <$> p) (f <$> r) := by
  rcases h with rfl | ⟨hl, g, rfl⟩
  · exact .refl _
  · exact .inr ⟨hl, g, rfl⟩

end Expected

/-! ## Tables of a kind -/

section Sound

variable [DecidableEq κ]

/-- Every value in a table is of a kind that belongs to its key. -/
def Memo.Sound (m : Memo κ α) (S : κ → α → Prop) : Prop := ∀ k a, m.get? k = some a → S k a

variable {m : Memo κ α} {S : κ → α → Prop} {k : κ} {a : α}

theorem Memo.sound_empty : (Memo.empty : Memo κ α).Sound S := nofun

/-- A slot without a value breaks nothing. -/
theorem Memo.Sound.reserve (h : m.Sound S) : (m.reserve k).Sound S := by
  intro j b hb
  rw [Memo.get?_reserve] at hb
  exact h j b hb

/-- Publishing a value of the right kind breaks nothing; where one is there already, that one
stays. -/
theorem Memo.Sound.publish (h : m.Sound S) (ha : S k a) : (m.publish k a).Sound S := by
  intro j b hb
  rw [Memo.get?_publish] at hb
  by_cases hk : k = j
  · subst hk
    rw [if_pos rfl] at hb
    -- a value that is there stays, so the new one counts only if there was none
    cases hm : m.get? k with
    | none =>
      rw [hm] at hb
      exact Option.some.inj hb ▸ ha
    | some c =>
      rw [hm] at hb
      exact Option.some.inj hb ▸ h k c hm
  · rw [if_neg hk] at hb
    exact h j b hb

end Sound

section Within

variable [DecidableEq κ]

/-- What is published in a table is published in another one too, and is the same there. -/
def Memo.Within (m m' : Memo κ α) : Prop := ∀ k a, m.get? k = some a → m'.get? k = some a

variable {m m' m'' : Memo κ α}

theorem Memo.Within.refl (m : Memo κ α) : m.Within m := fun _ _ h => h

theorem Memo.Within.trans (h : m.Within m') (h' : m'.Within m'') : m.Within m'' :=
  fun k a ha => h' k a (h k a ha)

/-- A new slot takes nothing away. -/
theorem Memo.within_reserve (m : Memo κ α) (k : κ) : m.Within (m.reserve k) :=
  fun j _ h => (Memo.get?_reserve m k j).trans h

/-- Publishing takes nothing away. -/
theorem Memo.within_publish (m : Memo κ α) (k : κ) (a : α) : m.Within (m.publish k a) :=
  fun _ _ h => Memo.get?_publish_of_some h

end Within

namespace Act

/-- What a sequence that ended well went through. -/
theorem bind_apply_eq_ok {x : Act σ ε α} {f : α → Act σ ε β} {s s' : σ} {b : β}
    (h : (x >>= f) s = (.ok b, s')) : ∃ a s₁, x s = (.ok a, s₁) ∧ f a s₁ = (.ok b, s') := by
  rw [bind_apply] at h
  rcases hx : x s with ⟨e | a, s₁⟩ <;> rw [hx] at h
  · cases h
  · exact ⟨a, s₁, rfl, h⟩

/-- A sequence of look-ups is a sequence of acts that leave the state alone. -/
theorem ofExcept_bind (r : Except ε α) (f : α → Except ε β) :
    (Act.ofExcept (r >>= f) : Act σ ε β) = Act.ofExcept r >>= fun a => Act.ofExcept (f a) := by
  cases r <;> rfl

/-- A look-up that ended well leaves the state as it was. -/
theorem ofExcept_apply_eq_ok {r : Except ε α} {s s' : σ} {a : α}
    (h : Act.ofExcept r s = (.ok a, s')) : r = .ok a ∧ s = s' := by
  cases r with
  | ok b =>
    cases h
    exact ⟨rfl, rfl⟩
  | error e => cases h

/-- The same of a look-up among acts that can fail in more ways. -/
theorem lift_apply_eq_ok {ε : Type} {r : Except Fault α} {s s' : σ} {a : α}
    (h : Act.ofExcept (monadLift r : Except (Failure ε) α) s = (.ok a, s')) :
    r = .ok a ∧ s = s' := by
  cases r with
  | ok b =>
    cases h
    exact ⟨rfl, rfl⟩
  | error e => cases h

/-- What ended well among acts that can fail in more ways ended well on its own. -/
theorem widen_apply_eq_ok {ε : Type} {x : Act σ Fault α} {s s' : σ} {a : α}
    (h : (x.widen : Act σ (Failure ε) α) s = (.ok a, s')) : x s = (.ok a, s') := by
  rw [widen, mapFailure] at h
  rcases hx : x s with ⟨e | b, s₁⟩ <;> rw [hx] at h <;> cases h
  rfl

/-- Behind an act that can only fault, and did not, the next one goes on. -/
theorem widen_bind_of_ok {ε : Type} {x : Act σ Fault α} {f : α → Act σ (Failure ε) β} {s s' : σ}
    {a : α} (h : x s = (.ok a, s')) : (x.widen >>= f) s = f a s' := by
  rw [bind_apply, widen, mapFailure, h]

/-- A sequence that begins with a step that can only fault, and does not fault, got past that
step. -/
theorem exists_ok_of_widen_bind {ε : Type} {x : Act σ Fault α} {f : α → Act σ (Failure ε) β}
    {s : σ} (hquiet : ∀ g, ((x.widen >>= f) s).1 ≠ .error (.fault g)) :
    ∃ a s', x s = (.ok a, s') := by
  rcases hx : x s with ⟨g | a, s'⟩
  · rw [bind_apply, widen, mapFailure, hx] at hquiet
    exact absurd rfl (hquiet g)
  · exact ⟨a, s', rfl⟩

/-- A sequence that begins with a step that can only fault and ends with an error got past that
step. -/
theorem widen_bind_apply_eq_error {ε : Type} {x : Act σ Fault α} {f : α → Act σ (Failure ε) β}
    {s s' : σ} {e : ε} (h : (x.widen >>= f) s = (.error (.error e), s')) :
    ∃ a s₁, x s = (.ok a, s₁) ∧ f a s₁ = (.error (.error e), s') := by
  rw [bind_apply, widen, mapFailure] at h
  rcases hx : x s with ⟨g | a, s₁⟩ <;> rw [hx] at h
  · cases h
  · exact ⟨a, s₁, rfl, h⟩

/-- The same of one that begins with a look-up. -/
theorem lookup_bind_apply_eq_error {ε : Type} {r : Except Fault α}
    {f : α → Act σ (Failure ε) β} {s s' : σ} {e : ε}
    (h : (Act.ofExcept (monadLift r : Except (Failure ε) α) >>= f) s = (.error (.error e), s')) :
    ∃ a, r = .ok a ∧ f a s = (.error (.error e), s') := by
  cases r with
  | ok a => exact ⟨a, rfl, h⟩
  | error g => cases h

/-! ## Ensuring -/

/-- From every state with `P`, the act ends in a state with `P`, and with an outcome of `Q`. -/
def Ensures (P : σ → Prop) (x : Act σ ε α) (Q : Except ε α → Prop) : Prop :=
  ∀ s, P s → P (x s).2 ∧ Q (x s).1

variable {P : σ → Prop} {x : Act σ ε α} {f : α → Act σ ε β} {Q Q' : Except ε α → Prop}
  {R : Except ε β → Prop}

/-- A weaker claim about the outcome holds too. -/
theorem Ensures.mono (h : x.Ensures P Q) (hq : ∀ r, Q r → Q' r) : x.Ensures P Q' :=
  fun s hs => ⟨(h s hs).1, hq _ (h s hs).2⟩

theorem Ensures.pure {a : α} (h : Q (.ok a)) : (Pure.pure a : Act σ ε α).Ensures P Q :=
  fun _ hs => ⟨hs, h⟩

/-- Stopping changes no state. -/
theorem Ensures.stop {e : ε} (h : Q (.error e)) : (Act.stop e : Act σ ε α).Ensures P Q :=
  fun _ hs => ⟨hs, h⟩

/-- A look-up changes no state. -/
theorem Ensures.ofExcept {r : Except ε α} (h : Q r) : (Act.ofExcept r : Act σ ε α).Ensures P Q := by
  cases r with
  | ok a => exact Ensures.pure h
  | error e => exact Ensures.stop h

theorem Ensures.modify {f : σ → σ} {Q : Except ε Unit → Prop} (hf : ∀ s, P s → P (f s))
    (h : Q (.ok ())) : (Act.modify f : Act σ ε Unit).Ensures P Q :=
  fun s hs => ⟨hf s hs, h⟩

/-- What a sequence ensures: the second act starts from whatever the first one ensures, and an error
of the first one is an error of the whole. -/
theorem Ensures.bind (hx : x.Ensures P Q) (hok : ∀ a, Q (.ok a) → (f a).Ensures P R)
    (herror : ∀ e, Q (.error e) → R (.error e)) : (x >>= f).Ensures P R := by
  intro s hs
  obtain ⟨hs', hr⟩ := hx s hs
  rw [bind_apply]
  rcases hxs : x s with ⟨r, s'⟩
  rw [hxs] at hs' hr
  cases r with
  | ok a => exact hok a hr s' hs'
  | error e => exact ⟨hs', herror e hr⟩

/-- The same behind a look-up, whose outcome is known. -/
theorem Ensures.ofExcept_then {r : Except ε α} (hok : ∀ a, r = .ok a → (f a).Ensures P R)
    (herror : ∀ e, r = .error e → R (.error e)) : (Act.ofExcept r >>= f).Ensures P R := by
  have hr : (Act.ofExcept r : Act σ ε α).Ensures P (· = r) := .ofExcept rfl
  exact hr.bind (fun a ha => hok a ha.symm) fun e he => herror e he.symm

/-- Errors may be said in another way, which changes no state. -/
theorem Ensures.mapFailure {g : ε → ε'} {R : Except ε' α → Prop} (hx : x.Ensures P Q)
    (hok : ∀ a, Q (.ok a) → R (.ok a)) (herror : ∀ e, Q (.error e) → R (.error (g e))) :
    (x.mapFailure g).Ensures P R := by
  intro s hs
  obtain ⟨hs', hr⟩ := hx s hs
  rw [Act.mapFailure]
  rcases hxs : x s with ⟨r, s'⟩
  rw [hxs] at hs' hr
  cases r with
  | ok a => exact ⟨hs', hok a hr⟩
  | error e => exact ⟨hs', herror e hr⟩

/-- What an act on a part of the state ensures of the whole. -/
theorem Ensures.zoom {get : σ → τ} {put : τ → σ → σ} {y : Act τ ε α}
    (hp : ∀ s, P s → P (put (y (get s)).2 s)) (hq : ∀ s, P s → Q (y (get s)).1) :
    (y.zoom get put).Ensures P Q :=
  fun s hs => ⟨hp s hs, hq s hs⟩

/-! ## Ensuring what is expected -/

variable {lapse : Prop}

/-- What follows an expected outcome is expected. -/
theorem Ensures.then [Faulting ε] {p : Except ε α} {q : α → Except ε β}
    (hx : x.Ensures P (Expected lapse p))
    (hf : ∀ a, (f a).Ensures P (Expected lapse (q a))) :
    (x >>= f).Ensures P (Expected lapse (p >>= q)) := by
  -- a lapse of the first act is one of the whole, and nothing follows it
  refine hx.bind (fun a ha => ?_) fun e he => ?_
  · rcases ha with ha | ⟨-, g, hg⟩
    · exact (hf a).mono fun r hr => by rwa [← ha]
    · cases hg
  · rcases he with he | ⟨hl, g, hg⟩
    · exact .inl (by rw [← he]; rfl)
    · exact .inr ⟨hl, g, congrArg _ (Except.error.inj hg)⟩

/-- What follows an act whose value is known, if it has one, is what follows that value. -/
theorem Ensures.known [Faulting ε] {a : α} {p : Except ε β}
    (hx : x.Ensures P (Expected lapse (.ok a))) (hf : (f a).Ensures P (Expected lapse p)) :
    (x >>= f).Ensures P (Expected lapse p) := by
  refine hx.bind (fun b hb => ?_) fun e he => ?_
  · cases hb.eq_of_ok
    exact hf
  · rcases he with he | ⟨hl, g, hg⟩
    · cases he
    · exact .inr ⟨hl, g, congrArg _ (Except.error.inj hg)⟩

/-- If each step is as expected, so is a walk through a list. -/
theorem Ensures.foldlM [Faulting ε] {f : β → α → Act σ ε β} {q : β → α → Except ε β}
    (h : ∀ b a, (f b a).Ensures P (Expected lapse (q b a))) (l : List α) (b : β) :
    (l.foldlM f b).Ensures P (Expected lapse (l.foldlM q b)) := by
  induction l generalizing b with
  | nil => exact .pure (.refl _)
  | cons a l ih =>
    rw [List.foldlM_cons, List.foldlM_cons]
    exact (h b a).then ih

/-- An expected outcome is expected too when its errors are taken as values. -/
theorem Ensures.settled {ε : Type} {x : Act σ (Failure ε) α} {p : Except (Failure ε) α}
    (h : x.Ensures P (Expected lapse p)) : x.settled.Ensures P (Expected lapse (settle p)) := by
  intro s hs
  obtain ⟨hs', hr⟩ := h s hs
  rw [Act.settled]
  rcases hxs : x s with ⟨r, s'⟩
  rw [hxs] at hs' hr
  rcases hr with rfl | ⟨hl, f, rfl⟩
  · rcases r with (_ | _) | _ <;> exact ⟨hs', .refl _⟩
  · exact ⟨hs', .inr ⟨hl, f, rfl⟩⟩

/-- An expected outcome is expected too among acts that can fail in more ways. -/
theorem Ensures.widen {ε : Type} {x : Act σ Fault α} {p : Except Fault α}
    (h : x.Ensures P (Expected lapse p)) :
    (x.widen : Act σ (Failure ε) α).Ensures P (Expected lapse (monadLift p)) := by
  refine h.mapFailure (fun a ha => ?_) fun e he => ?_
  · rcases ha with rfl | ⟨-, f, hf⟩
    · exact .refl _
    · cases hf
  · rcases he with rfl | ⟨hl, f, hf⟩
    · exact .refl _
    · exact .inr ⟨hl, e, rfl⟩

/-! ## Memo tables -/

/-- A table whose values are of a kind gives values of that kind. What is said of the table does
not depend on its slots, so a slot may be made before the value is computed. -/
theorem Ensures.getOrCompute [DecidableEq κ] {t : Shelf σ κ α} {k : κ} {x : Act σ Fault α}
    {Q : Except Fault α → Prop} (hx : x.Ensures P Q)
    (hkept : ∀ s, P s → ∀ a, (t.table s).get? k = some a → Q (.ok a))
    (hreserve : ∀ s, P s → P (t.put ((t.table s).reserve k) s))
    (hpublish : ∀ s a, P s → Q (.ok a) → P (t.put ((t.table s).publish k a) s)) :
    (t.getOrCompute k x).Ensures P Q := by
  intro s hs
  cases hk : (t.table s).get? k with
  | some a =>
    rw [t.getOrCompute_of_some x hk]
    exact ⟨hs, hkept s hs a hk⟩
  | none =>
    -- a miss: the value is computed while its slot is already there
    obtain ⟨hs', hr⟩ := hx _ (hreserve s hs)
    rcases hxs : x (t.put ((t.table s).reserve k) s) with ⟨r, s'⟩
    rw [hxs] at hs' hr
    cases r with
    | error f =>
      rw [t.getOrCompute_of_error hk hxs]
      exact ⟨hs', hr⟩
    | ok a =>
      rw [t.getOrCompute_of_ok hk hxs]
      refine ⟨hpublish s' a hs' hr, ?_⟩
      -- computing it may have put a value there, which then is the one given
      cases hk' : (t.table s').get? k with
      | none => exact hr
      | some b => exact hkept s' hs' b hk'

/-- What a table gave is in it from then on. -/
theorem get?_of_getOrCompute [DecidableEq κ] {t : Shelf σ κ α} {k : κ} {x : Act σ Fault α}
    {s s' : σ} {a : α} (h : t.getOrCompute k x s = (.ok a, s')) :
    (t.table s').get? k = some a := by
  cases hk : (t.table s).get? k with
  | some b =>
    rw [t.getOrCompute_of_some x hk] at h
    cases h
    exact hk
  | none =>
    rcases hxs : x (t.put ((t.table s).reserve k) s) with ⟨_ | b, s₁⟩
    · rw [t.getOrCompute_of_error hk hxs] at h
      cases h
    · rw [t.getOrCompute_of_ok hk hxs] at h
      cases h
      rw [t.table_put, Memo.get?_publish, if_pos rfl]

/-! ## Keeping -/

/-- From every state with `P`, the act ends in a state with `P`. -/
def Keeps (P : σ → Prop) (x : Act σ ε α) : Prop := x.Ensures P fun _ => True

theorem Keeps.pure (a : α) : (Pure.pure a : Act σ ε α).Keeps P := Ensures.pure trivial

theorem Keeps.stop (e : ε) : (Act.stop e : Act σ ε α).Keeps P := Ensures.stop trivial

theorem Keeps.ofExcept (r : Except ε α) : (Act.ofExcept r : Act σ ε α).Keeps P :=
  Ensures.ofExcept trivial

theorem Keeps.modify {f : σ → σ} (hf : ∀ s, P s → P (f s)) :
    (Act.modify f : Act σ ε Unit).Keeps P := Ensures.modify hf trivial

theorem Keeps.zoom {get : σ → τ} {put : τ → σ → σ} {y : Act τ ε α}
    (hp : ∀ s, P s → P (put (y (get s)).2 s)) : (y.zoom get put).Keeps P :=
  Ensures.zoom hp fun _ _ => trivial

/-- A sequence keeps what both acts keep. -/
theorem Keeps.bind (hx : x.Keeps P) (hf : ∀ a, (f a).Keeps P) : (x >>= f).Keeps P :=
  Ensures.bind hx (fun a _ => hf a) fun _ _ => trivial

/-- What follows a look-up, if the look-up does not fault. -/
theorem Keeps.of_lookup {ε : Type} {r : Except Fault α} {f : α → Act σ (Failure ε) β}
    (hf : ∀ a, r = .ok a → (f a).Keeps P) :
    (Act.ofExcept (monadLift r : Except (Failure ε) α) >>= f).Keeps P := by
  cases r with
  | ok a => exact hf a rfl
  | error e => exact Keeps.stop (Failure.fault e)

theorem Keeps.mapFailure {g : ε → ε'} (hx : x.Keeps P) : (x.mapFailure g).Keeps P :=
  Ensures.mapFailure hx (fun _ _ => trivial) fun _ _ => trivial

theorem Keeps.widen {ε : Type} {x : Act σ Fault α} (hx : x.Keeps P) :
    (x.widen : Act σ (Failure ε) α).Keeps P := hx.mapFailure

theorem Keeps.settled {ε : Type} {x : Act σ (Failure ε) α} (hx : x.Keeps P) :
    x.settled.Keeps P := by
  intro s hs
  obtain ⟨hs', -⟩ := hx s hs
  rw [Act.settled]
  rcases hxs : x s with ⟨(_ | _) | _, s'⟩ <;> rw [hxs] at hs' <;> exact ⟨hs', trivial⟩

/-- A walk through a list keeps what each step keeps. -/
theorem Keeps.foldlM {f : β → α → Act σ ε β} (hf : ∀ b a, (f b a).Keeps P) (l : List α) (b : β) :
    (l.foldlM f b).Keeps P := by
  induction l generalizing b with
  | nil => exact .pure b
  | cons a l ih =>
    rw [List.foldlM_cons]
    exact (hf b a).bind ih

/-- A table keeps what does not depend on its slots, if what is published in it is of the right
kind. -/
theorem Keeps.getOrCompute [DecidableEq κ] {t : Shelf σ κ α} {k : κ} {x : Act σ Fault α}
    {Q : Except Fault α → Prop} (hx : x.Ensures P Q)
    (hreserve : ∀ s, P s → P (t.put ((t.table s).reserve k) s))
    (hpublish : ∀ s a, P s → Q (.ok a) → P (t.put ((t.table s).publish k a) s)) :
    (t.getOrCompute k x).Keeps P := by
  intro s hs
  cases hk : (t.table s).get? k with
  | some a =>
    rw [t.getOrCompute_of_some x hk]
    exact ⟨hs, trivial⟩
  | none =>
    obtain ⟨hs', hr⟩ := hx _ (hreserve s hs)
    rcases hxs : x (t.put ((t.table s).reserve k) s) with ⟨r, s'⟩
    rw [hxs] at hs' hr
    cases r with
    | error f =>
      rw [t.getOrCompute_of_error hk hxs]
      exact ⟨hs', trivial⟩
    | ok a =>
      rw [t.getOrCompute_of_ok hk hxs]
      exact ⟨hpublish s' a hs' hr, trivial⟩

/-! ## Yielding -/

/-- From every state with `P`, the act ends in a state with `P`, and a value that it gives is of
`I`. -/
def Yields (P : σ → Prop) (x : Act σ ε α) (I : α → Prop) : Prop :=
  x.Ensures P fun r => ∀ a, r = .ok a → I a

variable {I : α → Prop} {J : β → Prop}

theorem Yields.pure {a : α} (h : I a) : (Pure.pure a : Act σ ε α).Yields P I :=
  Ensures.pure fun _ ha => Except.ok.inj ha ▸ h

theorem Yields.stop (e : ε) : (Act.stop e : Act σ ε α).Yields P I := Ensures.stop nofun

theorem Yields.ofError (e : ε) : (Act.ofExcept (.error e) : Act σ ε α).Yields P I := .stop e

theorem Yields.ofExcept {r : Except ε α} (h : ∀ a, r = .ok a → I a) :
    (Act.ofExcept r : Act σ ε α).Yields P I :=
  Ensures.ofExcept h

/-- A look-up yields what it finds. -/
theorem Yields.lookup {ε : Type} (r : Except Fault α) :
    (Act.ofExcept (monadLift r : Except (Failure ε) α)).Yields P fun a => r = .ok a := by
  cases r with
  | ok a => exact .pure rfl
  | error f => exact .stop (Failure.fault f)

/-- The second act may rely on what the first one yields. -/
theorem Yields.bind (hx : x.Yields P I) (hf : ∀ a, I a → (f a).Yields P J) :
    (x >>= f).Yields P J :=
  Ensures.bind hx (fun a ha => hf a (ha a rfl)) fun _ _ => nofun

/-- What follows an act of whose value nothing is said. -/
theorem Keeps.yields_bind (hx : x.Keeps P) (hf : ∀ a, (f a).Yields P J) : (x >>= f).Yields P J :=
  Ensures.bind hx (fun a _ => hf a) fun _ _ => nofun

theorem Yields.widen {ε : Type} {x : Act σ Fault α} (hx : x.Yields P I) :
    (x.widen : Act σ (Failure ε) α).Yields P I :=
  Ensures.mapFailure hx (fun a ha _ hb => Except.ok.inj hb ▸ ha a rfl) fun _ _ => nofun

/-- What is yielded is of its kind also when errors are taken as values. -/
theorem Yields.settled {ε : Type} {x : Act σ (Failure ε) α} (hx : x.Yields P I) :
    x.settled.Yields P fun r => ∀ a, r = .ok a → I a := by
  intro s hs
  obtain ⟨hs', hr⟩ := hx s hs
  rw [Act.settled]
  rcases hxs : x s with ⟨(_ | _) | a, s'⟩ <;> rw [hxs] at hs' hr
  · exact ⟨hs', nofun⟩
  · exact ⟨hs', fun r hr' => Except.ok.inj hr' ▸ nofun⟩
  · refine ⟨hs', fun r hr' b hb => ?_⟩
    cases hr'
    cases hb
    exact hr a rfl

/-- A walk through a list yields what each step yields from what the one before it yielded. -/
theorem Yields.foldlM {f : β → α → Act σ ε β} (hf : ∀ b a, J b → (f b a).Yields P J) (l : List α)
    {b : β} (hb : J b) : (l.foldlM f b).Yields P J := by
  induction l generalizing b with
  | nil => exact .pure hb
  | cons a l ih =>
    rw [List.foldlM_cons]
    exact (hf b a hb).bind fun b' hb' => ih hb'

end Act

end QueryViews
