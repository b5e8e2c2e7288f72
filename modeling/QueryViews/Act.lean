import QueryViews.Error

/-!
# Acts on a state

`Act σ ε α` is a step on a state of type `σ` that gives an `α` or ends without one, for a reason
of type `ε`. What a step did to the state before it ended stays done: a failed step can have
scanned, loaded or generated, and later steps see that it has.

The monad laws hold by cases on the outcome of the first step, so sequencing can be reasoned about
by evaluating it.
-/

namespace QueryViews

/-- A step on a state that may end without a value. -/
def Act (σ ε α : Type) : Type := σ → Except ε α × σ

namespace Act

variable {σ ε ε' α β : Type}

/-- The outcome of a step from a state, and the state after it. -/
def run (x : Act σ ε α) (s : σ) : Except ε α × σ := x s

/-- An act that only returns a value. -/
protected def pure (a : α) : Act σ ε α := fun s => (.ok a, s)

/-- One act after the other. If the first one stops, so does the whole, in the state that it
left. -/
protected def bind (x : Act σ ε α) (f : α → Act σ ε β) : Act σ ε β := fun s =>
  match x s with
  | (.ok a, s') => f a s'
  | (.error e, s') => (.error e, s')

instance : Monad (Act σ ε) where
  pure := Act.pure
  bind := Act.bind

/-- Ends without a value and leaves the state alone. -/
def stop (e : ε) : Act σ ε α := fun s => (.error e, s)

/-- The state. -/
def state : Act σ ε σ := fun s => (.ok s, s)

/-- Changes the state. -/
def modify (f : σ → σ) : Act σ ε Unit := fun s => (.ok (), f s)

/-- An outcome that does not depend on the state. -/
def ofExcept : Except ε α → Act σ ε α
  | .ok a => Act.pure a
  | .error e => stop e

/-- The same step with its failures seen as failures of another kind. -/
def mapFailure (f : ε → ε') (x : Act σ ε α) : Act σ ε' α := fun s =>
  match x s with
  | (.ok a, s') => (.ok a, s')
  | (.error e, s') => (.error (f e), s')

/-- A step that can only fault, where errors are possible too. -/
def widen (x : Act σ Fault α) : Act σ (Failure ε) α := x.mapFailure .fault

/-- The same step with its error, if it ends with one, as its value. -/
def settled (x : Act σ (Failure ε) α) : Act σ Fault (Except ε α) := fun s =>
  match x s with
  | (.ok a, s') => (.ok (.ok a), s')
  | (.error (.error e), s') => (.ok (.error e), s')
  | (.error (.fault f), s') => (.error f, s')

/-- A step on a part of a state: `get` gives the part and `put` replaces it. -/
def zoom {τ : Type} (get : σ → τ) (put : τ → σ → σ) (x : Act τ ε α) : Act σ ε α := fun s =>
  let (outcome, t) := x (get s)
  (outcome, put t s)

/-- A look-up in an act. -/
instance : MonadLift (Except Fault) (Act σ Fault) := ⟨ofExcept⟩

/-- An outcome that does not depend on the state, in an act. -/
instance : MonadLift (Except (Failure ε)) (Act σ (Failure ε)) := ⟨ofExcept⟩

/-! ## Evaluation -/

@[simp] theorem pure_apply (a : α) (s : σ) : (pure a : Act σ ε α) s = (.ok a, s) := rfl

theorem bind_apply (x : Act σ ε α) (f : α → Act σ ε β) (s : σ) :
    (x >>= f) s = match x s with
      | (.ok a, s') => f a s'
      | (.error e, s') => (.error e, s') := rfl

instance : LawfulMonad (Act σ ε) :=
  LawfulMonad.mk' _
    (fun x => by
      funext s
      change (x >>= fun a => pure a) s = x s
      rw [bind_apply]
      rcases x s with ⟨_ | _, _⟩ <;> rfl)
    (fun _ _ => rfl)
    (fun x f g => by
      funext s
      rw [bind_apply, bind_apply, bind_apply]
      rcases x s with ⟨_ | _, _⟩ <;> rfl)

/-- Behind an act that returns, the next one goes on from the state that it left. -/
theorem bind_apply_ok {x : Act σ ε α} {f : α → Act σ ε β} {s s' : σ} {a : α}
    (h : x s = (.ok a, s')) : (x >>= f) s = f a s' := by
  rw [bind_apply, h]

/-- Behind an act that stops, nothing is done. -/
theorem bind_apply_error {x : Act σ ε α} {f : α → Act σ ε β} {s s' : σ} {e : ε}
    (h : x s = (.error e, s')) : (x >>= f) s = (.error e, s') := by
  rw [bind_apply, h]

@[simp] theorem stop_apply (e : ε) (s : σ) : (stop e : Act σ ε α) s = (.error e, s) := rfl

@[simp] theorem state_apply (s : σ) : (state : Act σ ε σ) s = (.ok s, s) := rfl

@[simp] theorem modify_apply (f : σ → σ) (s : σ) :
    (modify f : Act σ ε Unit) s = (.ok (), f s) := rfl

end Act

end QueryViews
